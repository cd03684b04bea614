import Mathlib.Tactic.SplitIfs
import Scrawl.Text.Lines
import Scrawl.Text.Utf8

/-!
# Proofs/Text/Utf8 — bytes read back as the text they were written from

`decodeUtf8` undoes `encodeUtf8` (`decodeUtf8_encodeUtf8`).  The step is one character: its first
byte tells how many bytes follow, these are all good, and their bits are the character's
(`decodeFrom_utf8EncodeChar`).
-/

namespace Scrawl.Text

/-- **The bytes that a text is stored as.** -/
def encodeUtf8 (s : String) : List UInt8 := s.toUTF8.data.toList

theorem encodeUtf8_ofList (cs : List Char) :
    encodeUtf8 (String.ofList cs) = cs.flatMap String.utf8EncodeChar := by
  rw [encodeUtf8, String.toUTF8_eq_toByteArray, String.toByteArray_ofList, List.utf8Encode,
    List.data_toByteArray]

/-! ## The bytes of one character -/

section Step

variable {first : UInt8} {more rest : List UInt8}

/-- Continuation bytes are all good if the second byte fits the first. -/
theorem goodBytes_append (hsecond : ∀ b ∈ more.head?, isSecond first b)
    (hmore : ∀ b ∈ more, isContinuation b) :
    goodBytes first more.length (more ++ rest) = more.length := by
  rw [goodBytes, List.take_left]
  cases more with
  | nil => rfl
  | cons second others =>
    have hothers : ∀ b ∈ others, isContinuation b := fun b hb => hmore b (List.mem_cons_of_mem _ hb)
    dsimp only
    rw [if_pos (hsecond second rfl), ← List.append_nil others, List.takeWhile_append_of_pos hothers,
      List.takeWhile_nil, List.append_nil, List.length_cons, Nat.add_comm]

/-- One character is taken off with all its bytes. -/
theorem decodeFrom_cons (hlength : characterLength? first = some (more.length + 1))
    (hsecond : ∀ b ∈ more.head?, isSecond first b) (hmore : ∀ b ∈ more, isContinuation b)
    (fuel index : Nat) (done : List Char) :
    decodeFrom (fuel + 1) index done (first :: more ++ rest) =
      decodeFrom fuel (index + (more.length + 1))
        (Char.ofNat (joinBits (startBits first (more.length + 1)) more) :: done) rest := by
  have hgood : goodBytes first (more.length + 1 - 1) (more ++ rest) = more.length :=
    goodBytes_append hsecond hmore
  rw [List.cons_append, decodeFrom, hlength]
  dsimp only
  rw [hgood, if_pos (Nat.add_sub_cancel more.length 1).symm, List.take_left, List.drop_left]

end Step

/-! ## Bytes as numbers -/

/-- The continuation byte with the last six bits of a number. -/
def continuation (n : Nat) : UInt8 := UInt8.ofNat (n % 64 + 128)

theorem toNat_ofNat {n : Nat} (h : n < 256) : (UInt8.ofNat n).toNat = n := by
  rw [UInt8.toNat_ofNat', Nat.mod_eq_of_lt h]

theorem toNat_continuation (n : Nat) : (continuation n).toNat = n % 64 + 128 :=
  toNat_ofNat (by omega)

theorem isContinuation_continuation (n : Nat) : isContinuation (continuation n) := by
  have hall : ∀ k : Fin 64, isContinuation (UInt8.ofNat (k.val + 128)) := by decide
  exact hall ⟨n % 64, Nat.mod_lt n (by decide)⟩

theorem joinBits_map_continuation (start : Nat) (ns : List Nat) :
    joinBits start (ns.map continuation) = ns.foldl (fun a n => a * 64 + n % 64) start := by
  have hbits (n : Nat) : (n % 64 + 128) % 64 = n % 64 := by omega
  simp only [joinBits, List.foldl_map, toNat_continuation, hbits]

theorem characterLength?_ofNat {a : Nat} (h : a < 256) : characterLength? (UInt8.ofNat a) =
    if a < 128 then some 1 else if a < 194 then none else if a < 224 then some 2
    else if a < 240 then some 3 else if a < 245 then some 4 else none := by
  have hall : ∀ k : Fin 256, characterLength? (UInt8.ofNat k.val) =
      if k.val < 128 then some 1 else if k.val < 194 then none else if k.val < 224 then some 2
      else if k.val < 240 then some 3 else if k.val < 245 then some 4 else none := by decide +kernel
  exact hall ⟨a, h⟩

/-- The second bytes that fit a first one. -/
structure Fits (first second : Nat) : Prop where
  overlong3 : first = 224 → 32 ≤ second % 64
  surrogate : first = 237 → second % 64 < 32
  overlong4 : first = 240 → 16 ≤ second % 64
  beyond : first = 244 → second % 64 < 16

theorem Fits.isSecond {a n : Nat} (h : Fits a n) (ha : a < 256) :
    isSecond (UInt8.ofNat a) (continuation n) := by
  have hfirst {k : UInt8} : UInt8.ofNat a = k → a = k.toNat := by
    rintro rfl
    exact (toNat_ofNat ha).symm
  rw [Text.isSecond, isContinuation_continuation, Bool.true_and]
  split_ifs with h1 h2 h3 h4
  · have := h.overlong3 (hfirst h1)
    rw [decide_eq_true_iff, UInt8.le_iff_toNat_le, toNat_continuation]
    change 160 ≤ _
    omega
  · have := h.surrogate (hfirst h2)
    rw [decide_eq_true_iff, UInt8.lt_iff_toNat_lt, toNat_continuation]
    change _ < 160
    omega
  · have := h.overlong4 (hfirst h3)
    rw [decide_eq_true_iff, UInt8.le_iff_toNat_le, toNat_continuation]
    change 144 ≤ _
    omega
  · have := h.beyond (hfirst h4)
    rw [decide_eq_true_iff, UInt8.lt_iff_toNat_lt, toNat_continuation]
    change _ < 144
    omega
  · rfl

/-- A character from the numbers that its bytes hold. -/
theorem decodeFrom_ofNat {a : Nat} (ns : List Nat) {c : Char} (ha : a < 256)
    (hlength : characterLength? (UInt8.ofNat a) = some (ns.length + 1))
    (hfits : ∀ n ∈ ns.head?, Fits a n)
    (hc : ns.foldl (fun a n => a * 64 + n % 64) (startBits (UInt8.ofNat a) (ns.length + 1)) =
      c.toNat) (rest : List UInt8) (fuel index : Nat) (done : List Char) :
    decodeFrom (fuel + 1) index done (UInt8.ofNat a :: ns.map continuation ++ rest) =
      decodeFrom fuel (index + (ns.length + 1)) (c :: done) rest := by
  rw [decodeFrom_cons, List.length_map, joinBits_map_continuation, hc, Char.ofNat_toNat]
  · rwa [List.length_map]
  · intro b hb
    rw [List.head?_map] at hb
    obtain ⟨n, hn, rfl⟩ := Option.map_eq_some_iff.mp hb
    exact (hfits n hn).isSecond ha
  · intro b hb
    obtain ⟨n, -, rfl⟩ := List.mem_map.mp hb
    exact isContinuation_continuation n

/-! ## Characters and texts -/

/-- **A character is read back from its bytes.** -/
theorem decodeFrom_utf8EncodeChar (c : Char) (rest : List UInt8) (fuel index : Nat)
    (done : List Char) :
    ∃ next, decodeFrom (fuel + 1) index done (String.utf8EncodeChar c ++ rest) =
      decodeFrom fuel next (c :: done) rest := by
  have hvalid : c.toNat < 0xd800 ∨ 0xdfff < c.toNat ∧ c.toNat < 0x110000 := c.valid
  rw [String.utf8EncodeChar]
  change ∃ next, decodeFrom _ _ _ ((if c.toNat ≤ 127 then [UInt8.ofNat c.toNat] else
    if c.toNat ≤ 2047 then [UInt8.ofNat (c.toNat / 64 % 32 + 192), continuation c.toNat] else
    if c.toNat ≤ 65535 then [UInt8.ofNat (c.toNat / 4096 % 16 + 224),
      continuation (c.toNat / 64), continuation c.toNat] else
    [UInt8.ofNat (c.toNat / 262144 % 8 + 240), continuation (c.toNat / 4096),
      continuation (c.toNat / 64), continuation c.toNat]) ++ _) = _
  split_ifs with h1 h2 h3
  · refine ⟨_, decodeFrom_ofNat [] (by omega) ?_ (by simp) ?_ rest fuel index done⟩
    · rw [characterLength?_ofNat (by omega), if_pos (by omega), List.length_nil]
    · exact toNat_ofNat (by omega)
  · refine ⟨_, decodeFrom_ofNat [c.toNat] (by omega) ?_ ?_ ?_ rest fuel index done⟩
    · rw [characterLength?_ofNat (by omega), if_neg (by omega), if_neg (by omega),
        if_pos (by omega), List.length_singleton]
    · rintro n ⟨⟩
      constructor <;> omega
    · change (UInt8.ofNat _).toNat % 32 * 64 + c.toNat % 64 = c.toNat
      rw [toNat_ofNat (by omega)]
      omega
  · refine ⟨_, decodeFrom_ofNat [c.toNat / 64, c.toNat] (by omega) ?_ ?_ ?_ rest fuel index
      done⟩
    · rw [characterLength?_ofNat (by omega), if_neg (by omega), if_neg (by omega),
        if_neg (by omega), if_pos (by omega)]
      rfl
    · rintro n ⟨⟩
      constructor <;> omega
    · change ((UInt8.ofNat _).toNat % 16 * 64 + c.toNat / 64 % 64) * 64 + c.toNat % 64 = c.toNat
      rw [toNat_ofNat (by omega)]
      omega
  · refine ⟨_, decodeFrom_ofNat [c.toNat / 4096, c.toNat / 64, c.toNat] (by omega) ?_ ?_ ?_
      rest fuel index done⟩
    · rw [characterLength?_ofNat (by omega), if_neg (by omega), if_neg (by omega),
        if_neg (by omega), if_neg (by omega), if_pos (by omega)]
      rfl
    · rintro n ⟨⟩
      constructor <;> omega
    · change (((UInt8.ofNat _).toNat % 8 * 64 + c.toNat / 4096 % 64) * 64 +
        c.toNat / 64 % 64) * 64 + c.toNat % 64 = c.toNat
      rw [toNat_ofNat (by omega)]
      omega

/-- A character has at least one byte. -/
theorem length_le_flatMap : ∀ cs : List Char,
    cs.length ≤ (cs.flatMap String.utf8EncodeChar).length
  | [] => Nat.le_refl 0
  | c :: cs => by
      have hc : 0 < (String.utf8EncodeChar c).length :=
        String.length_utf8EncodeChar c ▸ Char.utf8Size_pos c
      have hcs := length_le_flatMap cs
      rw [List.flatMap_cons, List.length_cons, List.length_append]
      omega

/-- The characters that are read join those read before. -/
theorem decodeFrom_flatMap : ∀ (cs : List Char) {fuel : Nat} (index : Nat) (done : List Char),
    cs.length ≤ fuel → decodeFrom fuel index done (cs.flatMap String.utf8EncodeChar) =
      .ok (String.ofList (done.reverse ++ cs))
  | [], fuel, index, done, _ => by
      rw [List.flatMap_nil, decodeFrom, List.append_nil]
  | c :: cs, fuel + 1, index, done, h => by
      obtain ⟨next, hnext⟩ := decodeFrom_utf8EncodeChar c (cs.flatMap String.utf8EncodeChar) fuel
        index done
      rw [List.flatMap_cons, hnext,
        decodeFrom_flatMap cs next (c :: done) (Nat.le_of_succ_le_succ h), List.reverse_cons,
        List.append_assoc, List.singleton_append]

/-- **A text is read back from its bytes.** -/
theorem decodeUtf8_encodeUtf8 (s : String) : decodeUtf8 (encodeUtf8 s) = .ok s := by
  have hbytes : encodeUtf8 s = s.toList.flatMap String.utf8EncodeChar := by
    rw [← encodeUtf8_ofList, String.ofList_toList]
  rw [decodeUtf8, hbytes, decodeFrom_flatMap s.toList 0 [] (length_le_flatMap s.toList),
    List.reverse_nil, List.nil_append, String.ofList_toList]

/-- Where no carriage return stands, line ends are as they should be. -/
theorem unifyLineEnds_eq_self : ∀ {cs : List Char}, '\r' ∉ cs → unifyLineEnds cs = cs
  | [], _ => rfl
  | c :: cs, h => by
      rw [List.mem_cons, not_or] at h
      rw [unifyLineEnds.eq_4, unifyLineEnds_eq_self h.2]
      · rintro rest rfl
        exact absurd rfl h.1
      · rintro rfl
        exact absurd rfl h.1

end Scrawl.Text
