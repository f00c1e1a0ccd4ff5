/-
UTF-8, both ways. Decoding the bytes of characters gives the characters back, and a byte below
0x80 stands for itself: it is found among the bytes only where its character is found, so a word of
such bytes begins or lies among the bytes only where the word begins or lies among the characters.
-/
import SubtreeHarvest.Proofs.Text.Cut
import SubtreeHarvest.Text.Utf8

namespace SubtreeHarvest.Text.Utf8

/-- The bytes of characters. -/
def bytes (cs : List Char) : List UInt8 :=
  cs.flatMap String.utf8EncodeChar

@[simp] theorem bytes_nil : bytes [] = [] := rfl

theorem bytes_cons (c : Char) (cs : List Char) :
    bytes (c :: cs) = String.utf8EncodeChar c ++ bytes cs := List.flatMap_cons

@[simp] theorem bytes_append (cs ds : List Char) : bytes (cs ++ ds) = bytes cs ++ bytes ds :=
  List.flatMap_append

theorem encode_eq (s : String) : encode s = bytes s.toList := rfl

theorem encode_append (s t : String) : encode (s ++ t) = encode s ++ encode t := by
  rw [encode_eq, String.toList_append, bytes_append]
  rfl

theorem encode_ofList (cs : List Char) : encode (String.ofList cs) = bytes cs := by
  rw [encode_eq, String.toList_ofList]

theorem encode_join (ts : List String) : encode (String.join ts) = ts.flatMap encode := by
  rw [encode_eq, String.toList_join, bytes, List.flatMap_assoc]
  rfl

theorem bytes_ne_nil : ∀ {cs : List Char}, cs ≠ [] → bytes cs ≠ []
  | [], h => absurd rfl h
  | c :: cs, _ => by
    rw [bytes_cons]
    exact List.append_ne_nil_of_left_ne_nil String.utf8EncodeChar_ne_nil _

/-! ## Sequences -/

theorem isTail_iff {b : UInt8} : isTail b = true ↔ 0x80 ≤ b.toNat ∧ b.toNat ≤ 0xBF := by
  simp [isTail, UInt8.le_iff_toNat_le]

theorem isSecond_iff {a b : UInt8} : isSecond a b = true ↔ (0x80 ≤ b.toNat ∧ b.toNat ≤ 0xBF) ∧
    (a.toNat = 0xE0 → 0xA0 ≤ b.toNat) ∧ (a.toNat = 0xED → b.toNat ≤ 0x9F) ∧
    (a.toNat = 0xF0 → 0x90 ≤ b.toNat) ∧ (a.toNat = 0xF4 → b.toNat ≤ 0x8F) := by
  simp only [isSecond, Bool.and_eq_true, Bool.or_eq_true, bne_iff_ne, decide_eq_true_eq, isTail_iff,
    UInt8.le_iff_toNat_le, ne_eq, ← UInt8.toNat_inj, Decidable.imp_iff_not_or, and_assoc]
  rfl

variable {i : Nat} {a b c d : UInt8} {rest : List UInt8} {u : Char}

theorem decodeFrom_one (ha : a.toNat < 0x80) (value : a.toNat = u.toNat) :
    decodeFrom i (a :: rest) = (u :: ·) <$> decodeFrom (i + 1) rest := by
  have one : a < 0x80 := UInt8.lt_iff_toNat_lt.2 ha
  rw [decodeFrom.eq_def]
  simp only [if_pos one, value, Char.ofNat_toNat]

/-- A byte that begins a sequence of more than one is not refused. -/
theorem begins (h : 0xC2 ≤ a.toNat) (h' : a.toNat ≤ 0xF4) :
    ¬ a < 0x80 ∧ (decide (a < 0xC2) || decide (0xF4 < a)) = false := by
  simp only [Bool.or_eq_false_iff, decide_eq_false_iff_not, UInt8.lt_iff_toNat_lt, UInt8.reduceToNat]
  omega

theorem decodeFrom_two (ha : 0xC2 ≤ a.toNat) (ha' : a.toNat < 0xE0) (hb : isSecond a b = true)
    (value : a.toNat % 0x20 * 0x40 + payload b = u.toNat) :
    decodeFrom i (a :: b :: rest) = (u :: ·) <$> decodeFrom (i + 2) rest := by
  obtain ⟨one, refused⟩ := begins ha (by omega)
  have two : a < 0xE0 := UInt8.lt_iff_toNat_lt.2 ha'
  rw [decodeFrom.eq_def]
  simp only [if_neg one, refused, Bool.false_eq_true, if_false, hb, Bool.not_true, if_pos two, value,
    Char.ofNat_toNat]

theorem decodeFrom_three (ha : 0xE0 ≤ a.toNat) (ha' : a.toNat < 0xF0) (hb : isSecond a b = true)
    (hc : isTail c = true)
    (value : (a.toNat % 0x10 * 0x40 + payload b) * 0x40 + payload c = u.toNat) :
    decodeFrom i (a :: b :: c :: rest) = (u :: ·) <$> decodeFrom (i + 3) rest := by
  obtain ⟨one, refused⟩ := begins (a := a) (by omega) (by omega)
  have two : ¬ a < 0xE0 := fun h => Nat.not_lt.2 ha (UInt8.lt_iff_toNat_lt.1 h)
  have three : a < 0xF0 := UInt8.lt_iff_toNat_lt.2 ha'
  rw [decodeFrom.eq_def]
  simp only [if_neg one, refused, Bool.false_eq_true, if_false, hb, hc, Bool.not_true, if_neg two,
    if_pos three, value, Char.ofNat_toNat]

theorem decodeFrom_four (ha : 0xF0 ≤ a.toNat) (ha' : a.toNat ≤ 0xF4) (hb : isSecond a b = true)
    (hc : isTail c = true) (hd : isTail d = true)
    (value : ((a.toNat % 0x8 * 0x40 + payload b) * 0x40 + payload c) * 0x40 + payload d = u.toNat) :
    decodeFrom i (a :: b :: c :: d :: rest) = (u :: ·) <$> decodeFrom (i + 4) rest := by
  obtain ⟨one, refused⟩ := begins (a := a) (by omega) ha'
  have two : ¬ a < 0xE0 := fun h => by have := UInt8.lt_iff_toNat_lt.1 h; simp at this; omega
  have three : ¬ a < 0xF0 := fun h => Nat.not_lt.2 ha (UInt8.lt_iff_toNat_lt.1 h)
  rw [decodeFrom.eq_def]
  simp only [if_neg one, refused, Bool.false_eq_true, if_false, hb, hc, hd, Bool.not_true, if_neg two,
    if_neg three, value, Char.ofNat_toNat]

/-- Decoding reads the bytes of one character as that character. -/
theorem decodeFrom_encodeChar (i : Nat) (u : Char) (rest : List UInt8) :
    decodeFrom i (String.utf8EncodeChar u ++ rest) =
      (u :: ·) <$> decodeFrom (i + (String.utf8EncodeChar u).length) rest := by
  have valid : u.toNat < 0xD800 ∨ 0xDFFF < u.toNat ∧ u.toNat < 0x110000 := u.valid
  have byte {n : Nat} (h : n < 0x100) : (UInt8.ofNat n).toNat = n := UInt8.toNat_ofNat_of_lt' h
  have low (n : Nat) : (UInt8.ofNat (n % 0x40 + 0x80)).toNat = n % 0x40 + 0x80 := byte (by omega)
  have tail (n : Nat) : isTail (UInt8.ofNat (n % 0x40 + 0x80)) = true :=
    isTail_iff.2 (by rw [low]; omega)
  have number : u.val.toNat = u.toNat := rfl
  -- one case for each length of a sequence, shortest first
  unfold String.utf8EncodeChar
  simp only [number]
  split
  · have first : (UInt8.ofNat u.toNat).toNat = u.toNat := byte (by omega)
    exact decodeFrom_one (by omega) first
  split
  · have first : (UInt8.ofNat (u.toNat / 64 % 0x20 + 0xc0)).toNat = u.toNat / 64 % 0x20 + 0xc0 :=
      byte (by omega)
    have second := low u.toNat
    exact decodeFrom_two (by omega) (by omega) (isSecond_iff.2 (by omega)) (by
      rw [payload, first, second]; omega)
  split
  · have first : (UInt8.ofNat (u.toNat / 4096 % 0x10 + 0xe0)).toNat =
        u.toNat / 4096 % 0x10 + 0xe0 := byte (by omega)
    have second := low (u.toNat / 64)
    exact decodeFrom_three (by omega) (by omega) (isSecond_iff.2 (by omega)) (tail _) (by
      rw [payload, payload, first, second, low]; omega)
  · have first : (UInt8.ofNat (u.toNat / 262144 % 0x08 + 0xf0)).toNat =
        u.toNat / 262144 % 0x08 + 0xf0 := byte (by omega)
    have second := low (u.toNat / 4096)
    exact decodeFrom_four (by omega) (by omega) (isSecond_iff.2 (by omega)) (tail _) (tail _) (by
      rw [payload, payload, payload, first, second, low, low]; omega)

theorem decodeFrom_bytes : ∀ (i : Nat) (cs : List Char), decodeFrom i (bytes cs) = .ok cs
  | _, [] => by rw [bytes_nil, decodeFrom.eq_def]
  | i, u :: cs => by
    rw [bytes_cons, decodeFrom_encodeChar, decodeFrom_bytes _ cs]
    rfl

/-- The bytes of characters decode to the characters. -/
theorem decode_bytes (cs : List Char) : decode (bytes cs) = .ok cs :=
  decodeFrom_bytes 0 cs

theorem encode_injective {s t : String} (h : encode s = encode t) : s = t := by
  have same := decode_bytes s.toList
  rw [← encode_eq, h, encode_eq, decode_bytes] at same
  exact String.toList_inj.1 (Except.ok.inj same).symm

/-! ## Bytes that stand for themselves -/

/-- The character that a byte below 0x80 stands for. -/
def charOf (b : UInt8) : Char :=
  Char.ofNat b.toNat

theorem encodeChar_ascii (h : u.toNat < 0x80) : String.utf8EncodeChar u = [UInt8.ofNat u.toNat] :=
  if_pos (show u.toNat ≤ 0x7F by omega)

theorem encodeChar_beyond (h : 0x80 ≤ u.toNat) : ∀ b ∈ String.utf8EncodeChar u, 0x80 ≤ b.toNat := by
  have high (n k m : Nat) (hk : 0x80 ≤ k) (hm : m + k ≤ 0x100) (pos : 0 < m) :
      0x80 ≤ (UInt8.ofNat (n % m + k)).toNat := by
    have := Nat.mod_lt n pos
    rw [UInt8.toNat_ofNat_of_lt' (show n % m + k < 0x100 by omega)]
    omega
  have number : u.val.toNat = u.toNat := rfl
  have one : ¬ u.toNat ≤ 0x7F := by omega
  unfold String.utf8EncodeChar
  simp only [number, if_neg one]
  intro b hb
  split at hb
  · simp only [List.mem_cons, List.not_mem_nil, or_false] at hb
    rcases hb with rfl | rfl <;> exact high _ _ _ (by decide) (by decide) (by decide)
  split at hb
  · simp only [List.mem_cons, List.not_mem_nil, or_false] at hb
    rcases hb with rfl | rfl | rfl <;> exact high _ _ _ (by decide) (by decide) (by decide)
  · simp only [List.mem_cons, List.not_mem_nil, or_false] at hb
    rcases hb with rfl | rfl | rfl | rfl <;> exact high _ _ _ (by decide) (by decide) (by decide)

/-- Among the bytes of a character a byte below 0x80 is the only one. -/
theorem encodeChar_of_mem (ha : a.toNat < 0x80) (h : a ∈ String.utf8EncodeChar u) :
    u = charOf a ∧ String.utf8EncodeChar u = [a] := by
  by_cases hu : u.toNat < 0x80
  · rw [encodeChar_ascii hu] at h ⊢
    have value : (UInt8.ofNat u.toNat).toNat = u.toNat := UInt8.toNat_ofNat_of_lt' (by
      show u.toNat < 0x100
      omega)
    rw [List.mem_singleton.1 h, charOf, value, Char.ofNat_toNat]
    exact ⟨rfl, rfl⟩
  · have := encodeChar_beyond (Nat.not_lt.1 hu) a h
    omega

theorem charOf_mem (ha : a.toNat < 0x80) {cs : List Char} (h : a ∈ bytes cs) : charOf a ∈ cs := by
  obtain ⟨u, hu, hm⟩ := List.mem_flatMap.1 h
  exact (encodeChar_of_mem ha hm).1 ▸ hu

/-- A word of bytes that stand for themselves begins the bytes of characters only where it begins
the characters. -/
theorem prefix_of_bytes : ∀ {w : List UInt8} {cs : List Char}, (∀ b ∈ w, b.toNat < 0x80) →
    w <+: bytes cs → w.map charOf <+: cs
  | [], _, _, _ => List.nil_prefix
  | b :: w, [], _, h => by simp at h
  | b :: w, u :: cs, hw, h => by
    obtain ⟨hb, hw⟩ := List.forall_mem_cons.1 hw
    -- the word and the first character begin with the same byte
    have hm : b ∈ String.utf8EncodeChar u := by
      obtain ⟨x, l, hx⟩ := List.exists_cons_of_ne_nil String.utf8EncodeChar_ne_nil
      rw [bytes_cons, hx, List.cons_append, List.cons_prefix_cons] at h
      rw [hx, h.1]
      exact List.mem_cons_self
    obtain ⟨rfl, he⟩ := encodeChar_of_mem hb hm
    rw [bytes_cons, he, List.singleton_append, List.cons_prefix_cons] at h
    rw [List.map_cons, List.cons_prefix_cons]
    exact ⟨rfl, prefix_of_bytes hw h.2⟩

/-- A word of bytes that stand for themselves lies among the bytes of characters only where it lies
among the characters. -/
theorem infix_of_bytes {w : List UInt8} (hw : ∀ b ∈ a :: w, b.toNat < 0x80) : ∀ {cs : List Char},
    a :: w <:+: bytes cs → (a :: w).map charOf <:+: cs
  | [], h => by simp at h
  | u :: cs, h => by
    by_cases hm : a ∈ String.utf8EncodeChar u
    · obtain ⟨-, he⟩ := encodeChar_of_mem (hw a List.mem_cons_self) hm
      rw [bytes_cons, he, List.singleton_append, List.infix_cons_iff] at h
      rcases h with h | h
      · refine (prefix_of_bytes hw ?_).isInfix
        rw [bytes_cons, he]
        exact h
      · exact (infix_of_bytes hw h).trans (List.suffix_cons u cs).isInfix
    · -- the word does not begin inside this character, so it lies behind it
      rw [bytes_cons] at h
      exact (infix_of_bytes hw (infix_of_append hm h)).trans (List.suffix_cons u cs).isInfix

end SubtreeHarvest.Text.Utf8
