import FrontEnd.Token.Lexer
import Mathlib.Data.List.Basic

set_option autoImplicit false

/-! # The bytes of characters

In UTF-8 an ASCII character is one byte, its number. Any other character is a byte that does not go
on with a character, and up to three that do; none of them is below 128
(`utf8EncodeChar_of_not_isAscii`). So a byte that is taken for the character of the same number
belongs to a class of ASCII characters only if it is the whole of such a character.
-/

namespace FrontEnd

/-- The characters of one byte. -/
def isAscii (c : Char) : Bool := c.val < 128

/-- All characters of a class are ASCII characters. -/
def OnlyAscii (p : Char → Bool) : Prop := ∀ c, p c = true → isAscii c = true

/-- The bytes of some characters. -/
def utf8 (text : List Char) : List UInt8 := text.flatMap String.utf8EncodeChar

@[simp] theorem utf8_nil : utf8 [] = [] := rfl

@[simp] theorem utf8_cons (c : Char) (text : List Char) :
    utf8 (c :: text) = String.utf8EncodeChar c ++ utf8 text := List.flatMap_cons

@[simp] theorem utf8_append (s t : List Char) : utf8 (s ++ t) = utf8 s ++ utf8 t :=
  List.flatMap_append

theorem toByteArray_ofList (text : List Char) :
    (String.ofList text).toByteArray = (utf8 text).toByteArray := by
  rw [String.toByteArray_ofList, List.utf8Encode, utf8]

/-- There are at least as many bytes as characters. -/
theorem length_le_utf8 (text : List Char) : text.length ≤ (utf8 text).length := by
  induction text with
  | nil => exact Nat.le_refl 0
  | cons c text ih =>
      have hpos := c.utf8Size_pos
      rw [utf8_cons, List.length_append, String.length_utf8EncodeChar, List.length_cons]
      omega

/-- The bytes of some characters make a text again. -/
theorem fromUTF8?_utf8 (text : List Char) :
    String.fromUTF8? (utf8 text).toByteArray = some (String.ofList text) := by
  have hvalid : (utf8 text).toByteArray.IsValidUTF8 := by
    rw [← toByteArray_ofList]
    exact (String.ofList text).isValidUTF8
  rw [String.fromUTF8?, dif_pos hvalid]
  exact congrArg some (String.toByteArray_inj.mp (toByteArray_ofList text).symm)

/-! ## Single characters -/

/-- The bytes that go on with a character, as numbers. -/
theorem isContinuation_iff (b : UInt8) :
    isContinuation b = true ↔ 128 ≤ b.toNat ∧ b.toNat < 192 := by
  have hall : ∀ n < 256, isContinuation (UInt8.ofNat n) = (decide (128 ≤ n) && decide (n < 192)) := by
    decide +kernel
  have hb := hall b.toNat b.toNat_lt
  rw [UInt8.ofNat_toNat] at hb
  rw [hb, Bool.and_eq_true, decide_eq_true_iff, decide_eq_true_iff]

theorem utf8EncodeChar_of_isAscii {c : Char} (h : isAscii c = true) :
    String.utf8EncodeChar c = [c.toUInt8] := by
  have hval : c.val < 128 := of_decide_eq_true h
  have hsize : c.utf8Size = 1 := by
    rw [Char.utf8Size_eq_one_iff, UInt32.le_iff_toNat_le]
    exact Nat.le_of_lt_succ (UInt32.lt_iff_toNat_lt.mp hval)
  exact String.utf8EncodeChar_eq_singleton hsize

/-- A character that is no ASCII character is a byte that starts a character and some that go on. -/
theorem utf8EncodeChar_of_not_isAscii {c : Char} (h : isAscii c = false) :
    ∃ b tail, String.utf8EncodeChar c = b :: tail ∧ 192 ≤ b.toNat ∧
      ∀ x ∈ tail, isContinuation x = true := by
  -- all bytes but the first carry six bits under the same mark
  have hcontinues (n : Nat) : isContinuation (UInt8.ofNat (n % 64 + 128)) = true := by
    rw [isContinuation_iff, UInt8.toNat_ofNat']
    omega
  have hval : ¬ c.val.toNat ≤ 127 := fun hle =>
    of_decide_eq_false h (UInt32.lt_iff_toNat_lt.mpr (Nat.lt_succ_of_le hle))
  unfold String.utf8EncodeChar
  dsimp only
  rw [if_neg hval]
  split
  · -- two bytes
    refine ⟨_, _, rfl, ?_, ?_⟩
    · rw [UInt8.toNat_ofNat']
      omega
    · rw [List.forall_mem_singleton]
      exact hcontinues _
  · split
    · -- three bytes
      refine ⟨_, _, rfl, ?_, ?_⟩
      · rw [UInt8.toNat_ofNat']
        omega
      · rw [List.forall_mem_cons, List.forall_mem_singleton]
        exact ⟨hcontinues _, hcontinues _⟩
    · -- four bytes
      refine ⟨_, _, rfl, ?_, ?_⟩
      · rw [UInt8.toNat_ofNat']
        omega
      · rw [List.forall_mem_cons, List.forall_mem_cons, List.forall_mem_singleton]
        exact ⟨hcontinues _, hcontinues _, hcontinues _⟩

/-! ## Bytes as characters -/

theorem toNat_toUInt8 {c : Char} (h : isAscii c = true) :
    c.toUInt8.toNat = c.val.toNat ∧ c.toUInt8.toNat < 128 := by
  have hval : c.val < 128 := of_decide_eq_true h
  have hlt : c.val.toNat < 128 := UInt32.lt_iff_toNat_lt.mp hval
  have hbyte : c.toUInt8.toNat = c.val.toNat % 256 := rfl
  rw [hbyte, Nat.mod_eq_of_lt (by omega)]
  exact ⟨rfl, hlt⟩

theorem ofUInt8_toUInt8 {c : Char} (h : isAscii c = true) : Char.ofUInt8 c.toUInt8 = c := by
  apply Char.ext
  apply UInt32.toNat_inj.mp
  exact (toNat_toUInt8 h).1

theorem isAscii_ofUInt8 {b : UInt8} (h : 128 ≤ b.toNat) : isAscii (Char.ofUInt8 b) = false := by
  have hval : (Char.ofUInt8 b).val.toNat = b.toNat := rfl
  refine decide_eq_false fun hlt => ?_
  have hnat := UInt32.lt_iff_toNat_lt.mp hlt
  rw [hval] at hnat
  exact absurd hnat (Nat.not_lt.mpr h)

theorem OnlyAscii.eq_false {p : Char → Bool} (hp : OnlyAscii p) {c : Char} (h : isAscii c = false) :
    p c = false := by
  cases hc : p c with
  | false => rfl
  | true =>
      rw [hp c hc] at h
      cases h

/-- No byte of another character is in a class of ASCII characters. -/
theorem OnlyAscii.ofUInt8 {p : Char → Bool} (hp : OnlyAscii p) {b : UInt8} (h : 128 ≤ b.toNat) :
    p (Char.ofUInt8 b) = false :=
  hp.eq_false (isAscii_ofUInt8 h)

/-! ## Classes of ASCII characters -/

theorem isAscii_of_le {c d : Char} (hd : isAscii d = true) (h : c.val ≤ d.val) : isAscii c = true :=
  decide_eq_true (Nat.lt_of_le_of_lt h (of_decide_eq_true hd))

theorem onlyAscii_beq {d : Char} (hd : isAscii d = true) : OnlyAscii (· == d) := by
  intro c hc
  rw [beq_iff_eq.mp hc]
  exact hd

theorem OnlyAscii.or {p q : Char → Bool} (hp : OnlyAscii p) (hq : OnlyAscii q) :
    OnlyAscii fun c => p c || q c := by
  intro c hc
  rcases Bool.or_eq_true_iff.mp hc with hc | hc
  · exact hp c hc
  · exact hq c hc

theorem onlyAscii_range {d e : Char} (he : isAscii e = true) :
    OnlyAscii fun c => decide (d ≤ c) && decide (c ≤ e) := by
  intro c hc
  rw [Bool.and_eq_true, decide_eq_true_iff, decide_eq_true_iff] at hc
  exact isAscii_of_le he hc.2

theorem onlyAscii_isDigit : OnlyAscii Char.isDigit := by
  intro c hc
  rw [Char.isDigit, Bool.and_eq_true, decide_eq_true_iff, decide_eq_true_iff] at hc
  exact isAscii_of_le (d := '9') rfl hc.2

theorem onlyAscii_isAlpha : OnlyAscii Char.isAlpha := by
  intro c hc
  have hcase : (c.isUpper || c.isLower) = true := hc
  rcases Bool.or_eq_true_iff.mp hcase with hupper | hlower
  · exact isAscii_of_le (d := 'Z') rfl (of_decide_eq_true hupper).2
  · have hends : (decide ('a'.val ≤ c.val) && decide (c.val ≤ 'z'.val)) = true := hlower
    exact isAscii_of_le (d := 'z') rfl (of_decide_eq_true (Bool.and_eq_true_iff.mp hends).2)

theorem onlyAscii_isWordStart : OnlyAscii isWordStart := onlyAscii_isAlpha.or (onlyAscii_beq rfl)

theorem onlyAscii_isWordChar : OnlyAscii isWordChar :=
  (onlyAscii_isAlpha.or onlyAscii_isDigit).or (onlyAscii_beq rfl)

theorem onlyAscii_isHexDigit : OnlyAscii isHexDigit :=
  (onlyAscii_isDigit.or (onlyAscii_range rfl)).or (onlyAscii_range rfl)

theorem onlyAscii_isOctalDigit : OnlyAscii isOctalDigit := onlyAscii_range rfl

theorem onlyAscii_isHexSign : OnlyAscii isHexSign := (onlyAscii_beq rfl).or (onlyAscii_beq rfl)

theorem onlyAscii_isOctalSign : OnlyAscii isOctalSign :=
  (((onlyAscii_beq rfl).or (onlyAscii_beq rfl)).or (onlyAscii_beq rfl)).or (onlyAscii_beq rfl)

theorem onlyAscii_isExponentSign : OnlyAscii isExponentSign :=
  (onlyAscii_beq rfl).or (onlyAscii_beq rfl)

theorem onlyAscii_isBlank : OnlyAscii Gap.isBlank :=
  (((onlyAscii_beq rfl).or (onlyAscii_beq rfl)).or (onlyAscii_beq rfl)).or (onlyAscii_beq rfl)

theorem onlyAscii_isCommentSign : OnlyAscii Gap.isCommentSign :=
  (onlyAscii_beq rfl).or (onlyAscii_beq rfl)

/-! ## Trees of signs -/

/-- A tree looks for ASCII characters only. -/
def SignTree.isAscii : SignTree → Bool
  | found _ => true
  | eat expected eaten missed => expected.all FrontEnd.isAscii && eaten.isAscii && missed.isAscii

/-- All signs are made of ASCII characters. -/
theorem isAscii_of_signTree? {c : Char} {tree : SignTree} (h : signTree? c = some tree) :
    isAscii c = true ∧ tree.isAscii = true := by
  unfold signTree? at h
  split at h <;> cases h
  all_goals decide

end FrontEnd
