/-!
# Entries — lists of named entries

An entry is a name with what it stands for.  A list of entries keeps its names in the order in which
they first came, and `List.lookup` reads it.
-/

namespace Scrawl

/-- An entry put into a list of entries: a name that is there keeps its place. -/
def putEntry {α : Type} (name : String) (a : α) : List (String × α) → List (String × α)
  | [] => [(name, a)]
  | (n, b) :: rest => if n = name then (n, a) :: rest else (n, b) :: putEntry name a rest

section

variable {α : Type} {name : String} (a : α)

/-- A new name comes last. -/
theorem putEntry_of_not_mem : ∀ {entries : List (String × α)}, name ∉ entries.map Prod.fst →
    putEntry name a entries = entries ++ [(name, a)]
  | [], _ => rfl
  | (n, b) :: rest, h => by
      have hne : n ≠ name := fun hn => h (hn ▸ List.mem_cons_self)
      rw [putEntry, if_neg hne, putEntry_of_not_mem (fun hr => h (List.mem_cons_of_mem n hr)),
        List.cons_append]

/-- A name that is there leaves the names as they are. -/
theorem map_fst_putEntry_of_mem : ∀ {entries : List (String × α)}, name ∈ entries.map Prod.fst →
    (putEntry name a entries).map Prod.fst = entries.map Prod.fst
  | (n, b) :: rest, h => by
      rw [putEntry]
      split
      · rfl
      · rename_i hne
        have hrest : name ∈ rest.map Prod.fst := (List.mem_cons.mp h).resolve_left (Ne.symm hne)
        rw [List.map_cons, map_fst_putEntry_of_mem hrest, List.map_cons]

theorem nodup_putEntry {entries : List (String × α)} (h : (entries.map Prod.fst).Nodup) :
    ((putEntry name a entries).map Prod.fst).Nodup := by
  by_cases hmem : name ∈ entries.map Prod.fst
  · rwa [map_fst_putEntry_of_mem a hmem]
  · rw [putEntry_of_not_mem a hmem, List.map_append]
    refine List.nodup_append.mpr ⟨h, List.pairwise_singleton _ _, fun n hn m hm hnm => ?_⟩
    obtain rfl : m = name := List.mem_singleton.mp hm
    exact hmem (hnm ▸ hn)

end

end Scrawl
