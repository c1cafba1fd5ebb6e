import Keyring.Json.Number
import Keyring.Proofs.Runs

/-!
# Written numbers

The parts of a number and the bytes that write them. The bytes of plain parts are one token for the
lexer, and are split into the same parts again.
-/
namespace Keyring.Json

open Token (code)

namespace Number

/-- The point and the digits behind it, if there are any. -/
def writeFraction : Bytes → Bytes
  | [] => []
  | digits => 0x2e :: digits

/-- The exponent with its mark and its sign, if there is one. -/
def writeExponent : Option (Bool × Bytes) → Bytes
  | none => []
  | some (down, digits) => 0x65 :: (if down then 0x2d else 0x2b) :: digits

/-- The bytes behind the sign of a number. -/
def Parts.body (p : Parts) : Bytes :=
  p.integer ++ (writeFraction p.fraction ++ writeExponent p.exponent)

/-- The bytes that write the parts of a number. -/
def Parts.write (p : Parts) : Bytes :=
  if p.negative then 0x2d :: p.body else p.body

/-- Parts that a JSON text may write: digits only, some of them before the point and behind the mark
of an exponent, and no zero in front of others. -/
structure Parts.Plain (p : Parts) : Prop where
  integer_ne : p.integer ≠ []
  integer_digits : p.integer.all Token.isDigit = true
  leading : ∀ rest, p.integer = 0x30 :: rest → rest = []
  fraction_digits : p.fraction.all Token.isDigit = true
  exponent_ne : ∀ down digits, p.exponent = some (down, digits) → digits ≠ []
  exponent_digits : ∀ down digits, p.exponent = some (down, digits) →
    digits.all Token.isDigit = true

end Number

namespace Token

theorem digit_cases {b : UInt8} (h : isDigit b = true) :
    b = 0x30 ∨ b = 0x31 ∨ b = 0x32 ∨ b = 0x33 ∨ b = 0x34 ∨ b = 0x35 ∨ b = 0x36 ∨ b = 0x37 ∨
      b = 0x38 ∨ b = 0x39 := by
  have hb : 0x30 ≤ b.toNat ∧ b.toNat ≤ 0x39 := by
    simpa [isDigit, UInt8.le_iff_toNat_le] using h
  simp only [← UInt8.toNat_inj]
  simp only [UInt8.reduceToNat]
  omega

namespace NumberPhase

/-- The phase after some bytes of a number. -/
abbrev run? (phase : NumberPhase) (bytes : Bytes) : Option NumberPhase :=
  runSteps? next? phase bytes

/-- A phase in which any number of digits may follow. -/
def takesDigits : NumberPhase → Bool
  | integer | fraction | exponent => true
  | _ => false

theorem next?_digit {phase : NumberPhase} (hp : phase.takesDigits = true) {b : UInt8}
    (hb : isDigit b = true) : phase.next? b = some phase := by
  cases phase <;> simp_all [takesDigits, next?]

theorem run?_digits {phase : NumberPhase} (hp : phase.takesDigits = true) {digits : Bytes}
    (h : digits.all isDigit = true) : phase.run? digits = some phase := by
  induction digits with
  | nil => rfl
  | cons b rest ih =>
    simp only [List.all_cons, Bool.and_eq_true] at h
    simp only [runSteps?_cons, next?_digit hp h.1, Option.bind_some, ih h.2]

/-- Where the digits of the integer part lead. -/
def isWhole : NumberPhase → Bool
  | zero | integer => true
  | _ => false

theorem run?_integer {p : Number.Parts} (hp : p.Plain) :
    ∃ phase, sign.run? p.integer = some phase ∧ phase.isWhole = true := by
  cases he : p.integer with
  | nil => exact absurd he hp.integer_ne
  | cons b rest =>
    have hd := hp.integer_digits
    rw [he, List.all_cons, Bool.and_eq_true] at hd
    by_cases hz : b = 0x30
    · subst b
      rw [hp.leading rest he]
      exact ⟨zero, rfl, rfl⟩
    · refine ⟨integer, ?_, rfl⟩
      simp only [runSteps?_cons, show sign.next? b = some integer by simp [next?, hz, hd.1],
        Option.bind_some]
      exact run?_digits rfl hd.2

theorem next?_point {phase : NumberPhase} (h : phase.isWhole = true) :
    phase.next? 0x2e = some point := by
  cases phase <;> simp_all [isWhole] <;> rfl

/-- Where a number may go on with an exponent or end. -/
def takesMark : NumberPhase → Bool
  | zero | integer | fraction => true
  | _ => false

theorem next?_mark {phase : NumberPhase} (h : phase.takesMark = true) :
    phase.next? 0x65 = some mark := by
  cases phase <;> simp_all [takesMark] <;> rfl

theorem run?_fraction {phase : NumberPhase} (h : phase.isWhole = true) {digits : Bytes}
    (hd : digits.all isDigit = true) :
    ∃ next, phase.run? (Number.writeFraction digits) = some next ∧ next.takesMark = true := by
  cases digits with
  | nil => exact ⟨phase, rfl, by cases phase <;> simp_all [isWhole, takesMark]⟩
  | cons b rest =>
    rw [List.all_cons, Bool.and_eq_true] at hd
    refine ⟨fraction, ?_, rfl⟩
    simp only [Number.writeFraction, runSteps?_cons, next?_point h, Option.bind_some,
      show point.next? b = some fraction by simp [next?, hd.1]]
    exact run?_digits rfl hd.2

/-- The bytes of plain parts are a whole number for the lexer. -/
theorem run?_body {p : Number.Parts} (hp : p.Plain) :
    ∃ phase, sign.run? p.body = some phase ∧ phase.complete = true := by
  obtain ⟨whole, hw, hwhole⟩ := run?_integer hp
  obtain ⟨marked, hm, hmark⟩ := run?_fraction hwhole hp.fraction_digits
  simp only [Number.Parts.body, runSteps?_append, hw, hm, Option.bind_some]
  cases he : p.exponent with
  | none => exact ⟨marked, rfl, by cases marked <;> simp_all [takesMark, complete]⟩
  | some e =>
    obtain ⟨down, digits⟩ := e
    have hd := hp.exponent_digits down digits he
    cases hs : digits with
    | nil => exact absurd hs (hp.exponent_ne down digits he)
    | cons b rest =>
      rw [hs, List.all_cons, Bool.and_eq_true] at hd
      have hsign : mark.next? (if down then 0x2d else 0x2b) = some markSign := by
        cases down <;> rfl
      refine ⟨exponent, ?_, rfl⟩
      simp only [Number.writeExponent, runSteps?_cons, next?_mark hmark, hsign, Option.bind_some,
        show markSign.next? b = some exponent by simp [next?, hd.1]]
      exact run?_digits rfl hd.2

end NumberPhase

namespace Lexer

theorem run?_eq_runSteps? (lexer : Lexer) (bytes : Bytes) :
    lexer.run? bytes = runSteps? step? lexer bytes := by
  induction bytes generalizing lexer with
  | nil => rfl
  | cons b rest ih =>
    rw [run?, runSteps?_cons]
    cases lexer.step? b with
    | none => rfl
    | some next => exact ih next

theorem run?_append (lexer : Lexer) (xs ys : Bytes) :
    lexer.run? (xs ++ ys) = (lexer.run? xs).bind fun next => next.run? ys := by
  simp only [run?_eq_runSteps?, runSteps?_append]

/-- Inside a number the lexer follows the phases. -/
theorem run?_number (tokens : List Token) {phase next : NumberPhase} (written bytes : Bytes)
    (h : phase.run? bytes = some next) :
    run? ⟨tokens, .number phase written⟩ bytes =
      some ⟨tokens, .number next (bytes.reverse ++ written)⟩ := by
  induction bytes generalizing phase written with
  | nil =>
    cases h
    rfl
  | cons b rest ih =>
    rw [NumberPhase.run?, runSteps?_cons] at h
    cases hb : phase.next? b with
    | none => simp [hb] at h
    | some middle =>
      rw [hb, Option.bind_some] at h
      simp only [run?, step?, hb]
      rw [ih (b :: written) h]
      simp

/-- A first digit takes the lexer where a sign in front of it would have done. -/
theorem begin?_digit (tokens : List Token) {b : UInt8} (h : isDigit b = true) :
    ∃ phase, NumberPhase.sign.next? b = some phase ∧
      begin? tokens b = some ⟨tokens, .number phase [b]⟩ := by
  rcases digit_cases h with rfl | rfl | rfl | rfl | rfl | rfl | rfl | rfl | rfl | rfl
  all_goals exact ⟨_, rfl, rfl⟩

/-- The bytes of plain parts are one token. -/
theorem run?_write (tokens : List Token) {p : Number.Parts} (hp : p.Plain) :
    ∃ phase : NumberPhase, phase.complete = true ∧
      run? ⟨tokens, .nothing⟩ p.write = some ⟨tokens, .number phase p.write.reverse⟩ := by
  obtain ⟨phase, hrun, hcomplete⟩ := NumberPhase.run?_body hp
  refine ⟨phase, hcomplete, ?_⟩
  unfold Number.Parts.write
  split
  next =>
    have hfirst : step? ⟨tokens, .nothing⟩ 0x2d = some ⟨tokens, .number .sign [0x2d]⟩ := rfl
    rw [run?, hfirst]
    dsimp only
    rw [run?_number tokens [0x2d] p.body hrun, List.reverse_cons]
  next =>
    cases he : p.body with
    | nil =>
      have hi := hp.integer_ne
      simp only [Number.Parts.body, List.append_eq_nil_iff] at he
      exact absurd he.1 hi
    | cons b rest =>
      have hd : isDigit b = true := by
        cases hi : p.integer with
        | nil => exact absurd hi hp.integer_ne
        | cons c more =>
          have hall := hp.integer_digits
          rw [hi, List.all_cons, Bool.and_eq_true] at hall
          simp only [Number.Parts.body, hi, List.cons_append, List.cons.injEq] at he
          exact he.1 ▸ hall.1
      obtain ⟨first, hfirst, hbegin⟩ := begin?_digit tokens hd
      rw [he, NumberPhase.run?, runSteps?_cons, hfirst, Option.bind_some] at hrun
      rw [run?, show step? ⟨tokens, .nothing⟩ b = begin? tokens b from rfl, hbegin]
      dsimp only
      rw [run?_number tokens [b] rest hrun, List.reverse_cons]

end Lexer
end Token

namespace Number

/-! ## Splitting -/

theorem span_digits {digits rest : Bytes} (h : digits.all Token.isDigit = true)
    (hr : ∀ b ∈ rest.head?, Token.isDigit b = false) :
    (digits ++ rest).takeWhile Token.isDigit = digits ∧
      (digits ++ rest).dropWhile Token.isDigit = rest := by
  have hall : ∀ b ∈ digits, Token.isDigit b = true := List.all_eq_true.1 h
  rw [List.takeWhile_append_of_pos hall, List.dropWhile_append_of_pos hall]
  cases rest with
  | nil => simp
  | cons b more => simp [hr b (by simp)]

/-- The digits behind a point, and the rest. -/
def splitFraction : Bytes → Bytes × Bytes
  | 0x2e :: rest => (rest.takeWhile Token.isDigit, rest.dropWhile Token.isDigit)
  | rest => ([], rest)

/-- The exponent that a written one is. -/
def splitExponent : Bytes → Option (Bool × Bytes)
  | [] => none
  | _ :: 0x2d :: digits => some (true, digits)
  | _ :: 0x2b :: digits => some (false, digits)
  | _ :: digits => some (false, digits)

/-- The parts of a number behind its sign. -/
def splitBody (negative : Bool) (body : Bytes) : Parts :=
  let rest := splitFraction (body.dropWhile Token.isDigit)
  ⟨negative, body.takeWhile Token.isDigit, rest.1, splitExponent rest.2⟩

theorem ofWritten_signed (negative : Bool) {body : Bytes} (h : body.head? ≠ some 0x2d) :
    Parts.ofWritten (if negative then 0x2d :: body else body) = splitBody negative body := by
  cases negative with
  | true => rfl
  | false =>
    unfold Parts.ofWritten
    cases body with
    | nil => rfl
    | cons b rest =>
      have hb : b ≠ 0x2d := by simpa using h
      simp only [Bool.false_eq_true, if_false]
      split
      next heq => exact absurd (List.cons.inj heq).1 hb
      next => rfl

theorem splitExponent_write (exponent : Option (Bool × Bytes)) :
    splitExponent (writeExponent exponent) = exponent := by
  cases exponent with
  | none => rfl
  | some e =>
    obtain ⟨down, digits⟩ := e
    cases down <;> rfl

theorem head?_writeExponent {exponent : Option (Bool × Bytes)} {b : UInt8}
    (h : b ∈ (writeExponent exponent).head?) : b = 0x65 := by
  cases exponent with
  | none => simp [writeExponent] at h
  | some e =>
    simp only [writeExponent, List.head?_cons, Option.mem_some_iff] at h
    exact h.symm

theorem splitFraction_write {fraction rest : Bytes} (hf : fraction.all Token.isDigit = true)
    (hr : ∀ b ∈ rest.head?, b = 0x65) :
    splitFraction (writeFraction fraction ++ rest) = (fraction, rest) := by
  cases fraction with
  | nil =>
    rw [writeFraction, List.nil_append]
    unfold splitFraction
    split
    next => simp at hr
    next => rfl
  | cons c more =>
    have hend : ∀ b ∈ rest.head?, Token.isDigit b = false := fun b hb => by
      rw [hr b hb]
      rfl
    have hs := span_digits hf hend
    simp only [writeFraction, List.cons_append, splitFraction]
    rw [← List.cons_append, hs.1, hs.2]

/-- Plain parts are read back from the bytes that write them. -/
theorem ofWritten_write {p : Parts} (hp : p.Plain) : Parts.ofWritten p.write = p := by
  have hmark : ∀ b ∈ (writeExponent p.exponent).head?, b = 0x65 := fun b hb =>
    head?_writeExponent hb
  have hrest : ∀ b ∈ (writeFraction p.fraction ++ writeExponent p.exponent).head?,
      Token.isDigit b = false := by
    intro b hb
    cases hf : p.fraction with
    | nil =>
      rw [hf] at hb
      rw [hmark b hb]
      rfl
    | cons c more =>
      rw [hf] at hb
      simp only [writeFraction, List.cons_append, List.head?_cons, Option.mem_some_iff] at hb
      rw [← hb]
      rfl
  have hfirst : p.body.head? ≠ some 0x2d := by
    cases hi : p.integer with
    | nil => exact absurd hi hp.integer_ne
    | cons b more =>
      intro hb
      have hd := hp.integer_digits
      simp only [Parts.body, hi, List.cons_append, List.head?_cons, Option.some.injEq] at hb
      rw [hi, hb] at hd
      simp [Token.isDigit] at hd
  have hwhole := span_digits hp.integer_digits hrest
  rw [Parts.write, ofWritten_signed p.negative hfirst]
  simp only [splitBody, Parts.body, hwhole.1, hwhole.2,
    splitFraction_write hp.fraction_digits hmark, splitExponent_write]

end Number
end Keyring.Json
