import Mathlib.Data.String.Basic

/-!
The bytes of a text.

A text is stored as the bytes of its characters, one after the other.  The first byte of a
character grows with the number of bytes, and behind it come the digits of the character's number,
so a greater character has a greater code and no code begins another one.  Hence two texts stand in
the same order as their bytes (`compare_toUTF8`), and as the numbers of their characters
(`compare_codePoints`).
-/

namespace LessonScript

def encode (cs : List Char) : List UInt8 :=
  cs.flatMap String.utf8EncodeChar

theorem encode_cons (c : Char) (cs : List Char) :
    encode (c :: cs) = String.utf8EncodeChar c ++ encode cs := rfl

theorem toByteArray_toList (text : String) :
    text.toByteArray.data.toList = encode text.toList := by
  rw [← String.utf8Encode_toList, List.utf8Encode, List.toList_data_toByteArray]
  rfl

/-- The numbers of the characters of a text. -/
def codePoints (cs : List Char) : List Nat :=
  cs.map Char.toNat

section OrderedCode

variable {α : Type} [Ord α] {code : Char → List α}

/-- The code of a lower character comes first, whatever follows the two codes. -/
structure OrderedCode (code : Char → List α) : Prop where
  ne_nil : ∀ c, code c ≠ []
  lower : ∀ {c d : Char}, c < d → ∀ xs ys, compare (code c ++ xs) (code d ++ ys) = .lt

theorem compare_append_left [Std.ReflOrd α] (front xs ys : List α) :
    compare (front ++ xs) (front ++ ys) = compare xs ys := by
  induction front with
  | nil => rfl
  | cons x front ih =>
      rw [List.cons_append, List.cons_append, List.compare_cons_cons, Std.compare_self, ih]
      rfl

theorem OrderedCode.compare_of_lt [Std.ReflOrd α] (ordered : OrderedCode code) {cs ds : List Char}
    (lower : cs < ds) : compare (cs.flatMap code) (ds.flatMap code) = .lt := by
  induction lower with
  | @nil d ds =>
      obtain ⟨x, xs, some⟩ := List.exists_cons_of_ne_nil (ordered.ne_nil d)
      rw [List.flatMap_nil, List.flatMap_cons, some]
      exact List.compare_nil_cons
  | rel first =>
      rw [List.flatMap_cons, List.flatMap_cons]
      exact ordered.lower first _ _
  | cons _ ih =>
      rw [List.flatMap_cons, List.flatMap_cons, compare_append_left]
      exact ih

theorem OrderedCode.compare_texts [Std.OrientedOrd α] (ordered : OrderedCode code) (s t : String) :
    compare (s.toList.flatMap code) (t.toList.flatMap code) = compare s t := by
  rcases lt_trichotomy s t with lower | rfl | higher
  · rw [compare_lt_iff_lt.mpr lower]
    exact ordered.compare_of_lt (String.lt_iff_toList_lt.mp lower)
  · rw [Std.compare_self, Std.compare_self]
  · rw [compare_gt_iff_gt.mpr higher, Std.OrientedOrd.eq_swap,
      ordered.compare_of_lt (String.lt_iff_toList_lt.mp higher)]
    rfl

end OrderedCode

/-- The code of a character is its number in digits to the base 64, and the byte that holds the
leading digit tells the number of digits. -/
theorem compare_utf8EncodeChar {c d : Char} (lower : c < d) (xs ys : List UInt8) :
    compare (String.utf8EncodeChar c ++ xs) (String.utf8EncodeChar d ++ ys) = .lt := by
  have less : c.val.toNat < d.val.toNat := lower
  have bounded : d.val.toNat < 0x110000 := by
    cases d.valid with
    | inl low => omega
    | inr high => omega
  simp only [String.utf8EncodeChar]
  generalize c.val.toNat = v, d.val.toNat = w at less bounded
  -- Where the leading digits agree, the first digit that differs decides.
  have last : v / 64 < w / 64 ∨ v / 64 = w / 64 ∧ v % 64 < w % 64 := by omega
  have second : v / 4096 < w / 4096 ∨ v / 4096 = w / 4096 ∧ v / 64 % 64 ≤ w / 64 % 64 := by omega
  have first : v / 262144 < w / 262144 ∨
      v / 262144 = w / 262144 ∧ v / 4096 % 64 ≤ w / 4096 % 64 := by
    omega
  split_ifs <;>
    simp (disch := omega) only [List.cons_append, List.nil_append, List.compare_cons_cons,
      Ordering.then_eq_lt, Std.compare_eq_lt, Std.compare_eq_iff_eq, UInt8.lt_iff_toNat_lt,
      ← UInt8.toNat_inj, UInt8.toNat_ofNat', Nat.mod_eq_of_lt] <;>
    omega

theorem utf8EncodeChar_ordered : OrderedCode String.utf8EncodeChar :=
  ⟨fun _ => String.utf8EncodeChar_ne_nil, compare_utf8EncodeChar⟩

theorem toNat_ordered : OrderedCode fun c => [c.toNat] := by
  constructor
  · intro c
    exact List.cons_ne_nil _ _
  · intro c d lower xs ys
    have less : c.toNat < d.toNat := lower
    rw [List.cons_append, List.cons_append, List.compare_cons_cons, Nat.compare_eq_lt.mpr less]
    rfl

theorem compare_encode (s t : String) : compare (encode s.toList) (encode t.toList) = compare s t :=
  utf8EncodeChar_ordered.compare_texts s t

theorem compare_toUTF8 (s t : String) :
    compare s.toUTF8.data.toList t.toUTF8.data.toList = compare s t := by
  rw [String.toUTF8_eq_toByteArray, String.toUTF8_eq_toByteArray, toByteArray_toList,
    toByteArray_toList, compare_encode]

/-- Two texts stand in the order of the numbers of their characters. -/
theorem compare_codePoints (s t : String) :
    compare (codePoints s.toList) (codePoints t.toList) = compare s t := by
  have points (cs : List Char) : codePoints cs = cs.flatMap fun c => [c.toNat] :=
    List.map_eq_flatMap
  rw [points, points]
  exact toNat_ordered.compare_texts s t

end LessonScript
