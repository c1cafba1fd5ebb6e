import Keyring.Json.Value
import Keyring.Proofs.Json.FloatText
import Keyring.Proofs.Json.StringText

/-!
# Reading what was written

The text of a value is lexed into the tokens of the value, and the parser makes its tree of them.
Strings and integers are found again as they were; a floating-point number may come back as another
one.
-/
namespace Keyring.Json

open Token (code)

/-! ## Values that come back -/

/-- The number that is read from the text of a number. -/
def Number.reread : Number → Number
  | .int z => .int z
  | .float f =>
    match Number.ofWritten? (Bytes.ofAscii f.jsonText) with
    | some (.float g) => .float g
    | _ => .float f

/-- The text of a number is read as a number of the same kind. -/
theorem Number.ofWritten?_text {n : Number} (hn : n.Storable) :
    Number.ofWritten? (Bytes.ofAscii n.text) = some n.reread := by
  cases n with
  | int z => exact Number.ofWritten?_int hn
  | float f =>
    obtain ⟨g, -, heq⟩ := Number.ofWritten?_float hn
    rw [heq, Number.reread]
    rw [Number.text] at heq
    rw [heq]

mutual

/-- The value that is read from the text of a value. -/
def reread : Json → Json
  | .number n => .number n.reread
  | .array items => .array (rereadItems items)
  | .object members => .object (rereadMembers members)
  | leaf => leaf

/-- The array items that are read. -/
def rereadItems : List Json → List Json
  | [] => []
  | item :: rest => reread item :: rereadItems rest

/-- The object members that are read. -/
def rereadMembers : List (String × Json) → List (String × Json)
  | [] => []
  | (key, value) :: rest => (key, reread value) :: rereadMembers rest

end

mutual

/-- All numbers of a value can be stored. -/
def Storable : Json → Prop
  | .number n => n.Storable
  | .array items => StorableItems items
  | .object members => StorableMembers members
  | _ => True

/-- All numbers of array items can be stored. -/
def StorableItems : List Json → Prop
  | [] => True
  | item :: rest => Storable item ∧ StorableItems rest

/-- All numbers of object members can be stored. -/
def StorableMembers : List (String × Json) → Prop
  | [] => True
  | (_, value) :: rest => Storable value ∧ StorableMembers rest

end

/-! ## Tokens -/

mutual

def tokens : Json → List Token
  | .null => [.null]
  | .bool b => [.bool b]
  | .number n => [.number (Bytes.ofAscii n.text)]
  | .string s => [.string (StringText.write s)]
  | .array items => .openArray :: (itemTokens items ++ [.closeArray])
  | .object members => .openObject :: (memberTokens members ++ [.closeObject])

/-- The tokens of array items with commas between them. -/
def itemTokens : List Json → List Token
  | [] => []
  | [item] => tokens item
  | item :: next :: rest => tokens item ++ .comma :: itemTokens (next :: rest)

/-- The tokens of object members with commas between them. -/
def memberTokens : List (String × Json) → List Token
  | [] => []
  | [(key, value)] => .string (StringText.write key) :: .colon :: tokens value
  | (key, value) :: next :: rest =>
    .string (StringText.write key) :: .colon ::
      (tokens value ++ .comma :: memberTokens (next :: rest))

end

namespace Token.Lexer

/-- The tokens that a lexer has read, in reverse, if it may be at the end of one: the last of them
may be a number that is still open. -/
inductive Holds : Lexer → List Token → Prop
  | ended (done : List Token) : Holds ⟨done, .nothing⟩ done
  | number (done : List Token) (phase : NumberPhase) (written : Bytes)
      (hphase : phase.complete = true) :
      Holds ⟨done, .number phase written⟩ (.number written.reverse :: done)

/-- The bytes that end a value within an array or object, and their tokens. -/
inductive Delimiter : UInt8 → Token → Prop
  | comma : Delimiter 0x2c .comma
  | closeArray : Delimiter 0x5d .closeArray
  | closeObject : Delimiter 0x7d .closeObject

theorem begin?_delimiter {b : UInt8} {token : Token} (h : Delimiter b token) (done : List Token) :
    begin? done b = some (emit done token) := by
  cases h <;> rfl

theorem next?_delimiter {b : UInt8} {token : Token} (h : Delimiter b token) (phase : NumberPhase) :
    phase.next? b = none := by
  cases h <;> cases phase <;> rfl

/-- A delimiter ends an open number. -/
theorem Holds.run?_delimiter {lexer : Lexer} {done : List Token} (h : Holds lexer done) {b : UInt8}
    {token : Token} (hb : Delimiter b token) (rest : Bytes) :
    lexer.run? (b :: rest) = run? ⟨token :: done, .nothing⟩ rest := by
  cases h with
  | ended =>
    have hstep : step? ⟨done, .nothing⟩ b = some (emit done token) := begin?_delimiter hb done
    rw [run?, hstep]
    rfl
  | number before phase written hphase =>
    have hstep : step? ⟨before, .number phase written⟩ b =
        some (emit (.number written.reverse :: before) token) := by
      simp only [step?, next?_delimiter hb, hphase, if_true]
      exact begin?_delimiter hb _
    rw [run?, hstep]
    rfl

theorem Holds.finish? {lexer : Lexer} {done : List Token} (h : Holds lexer done) :
    lexer.finish? = some done.reverse := by
  cases h with
  | ended => rfl
  | number before phase written hphase =>
    simp only [Lexer.finish?, hphase, if_true]

theorem run?_stringText (done : List Token) (s : String) (rest : Bytes) :
    run? ⟨done, .nothing⟩ (stringText s ++ rest) =
      run? ⟨.string (StringText.write s) :: done, .nothing⟩ rest := by
  have hopen : ∀ tail, run? ⟨done, .nothing⟩ (0x22 :: tail) = run? ⟨done, .string []⟩ tail :=
    fun _ => rfl
  simp only [stringText, List.cons_append, List.append_assoc, List.nil_append]
  rw [hopen, run?_string]
  rfl

theorem run?_numberText (done : List Token) {n : Number} (hn : n.Storable) :
    ∃ lexer, run? ⟨done, .nothing⟩ (Bytes.ofAscii n.text) = some lexer ∧
      Holds lexer (.number (Bytes.ofAscii n.text) :: done) := by
  obtain ⟨p, hp, hwrite⟩ : ∃ p : Number.Parts, p.Plain ∧ Bytes.ofAscii n.text = p.write := by
    cases n with
    | int z => exact ⟨_, Number.plain_ofInt z, Number.write_ofInt z⟩
    | float f =>
      cases f with
      | nan => exact hn.elim
      | infinite negative => exact hn.elim
      | finite negative m e =>
        have hzero := (Binary64.bounds_shortest m e).exponent_eq
        exact ⟨_, Number.plain_ofDecimal negative hzero, Number.write_ofDecimal negative m e⟩
  obtain ⟨phase, hphase, hrun⟩ := run?_write done hp
  have hholds := Holds.number done phase p.write.reverse hphase
  rw [List.reverse_reverse] at hholds
  rw [hwrite]
  exact ⟨_, hrun, hholds⟩

mutual

/-- The text of a value is lexed into its tokens. -/
theorem run?_render : (v : Json) → v.Storable → (done : List Token) →
    ∃ lexer, run? ⟨done, .nothing⟩ v.render = some lexer ∧ Holds lexer (v.tokens.reverse ++ done)
  | .null, _, done => ⟨_, rfl, .ended _⟩
  | .bool true, _, done => ⟨_, rfl, .ended _⟩
  | .bool false, _, done => ⟨_, rfl, .ended _⟩
  | .number n, hn, done => run?_numberText done hn
  | .string s, _, done => by
    have hrun := run?_stringText done s []
    rw [List.append_nil] at hrun
    exact ⟨_, hrun, .ended _⟩
  | .array items, hitems, done => by
    obtain ⟨lexer, hrun, hholds⟩ := run?_renderItems items hitems (.openArray :: done)
    have hopen : ∀ tail, run? ⟨done, .nothing⟩ (code '[' :: tail) =
        run? ⟨.openArray :: done, .nothing⟩ tail := fun _ => rfl
    refine ⟨⟨.closeArray :: ((itemTokens items).reverse ++ .openArray :: done), .nothing⟩, ?_, ?_⟩
    · rw [render, List.cons_append, hopen, run?_append, hrun, Option.bind_some]
      exact hholds.run?_delimiter .closeArray []
    · have hdone : (Json.array items).tokens.reverse ++ done =
          .closeArray :: ((itemTokens items).reverse ++ .openArray :: done) := by
        simp [Json.tokens]
      rw [hdone]
      exact .ended _
  | .object members, hmembers, done => by
    obtain ⟨lexer, hrun, hholds⟩ := run?_renderMembers members hmembers (.openObject :: done)
    have hopen : ∀ tail, run? ⟨done, .nothing⟩ (0x7b :: tail) =
        run? ⟨.openObject :: done, .nothing⟩ tail := fun _ => rfl
    refine ⟨⟨.closeObject :: ((memberTokens members).reverse ++ .openObject :: done), .nothing⟩,
      ?_, ?_⟩
    · rw [render, List.cons_append, hopen, run?_append, hrun, Option.bind_some]
      exact hholds.run?_delimiter .closeObject []
    · have hdone : (Json.object members).tokens.reverse ++ done =
          .closeObject :: ((memberTokens members).reverse ++ .openObject :: done) := by
        simp [Json.tokens]
      rw [hdone]
      exact .ended _

theorem run?_renderItems : (items : List Json) → StorableItems items → (done : List Token) →
    ∃ lexer, run? ⟨done, .nothing⟩ (renderItems items) = some lexer ∧
      Holds lexer ((itemTokens items).reverse ++ done)
  | [], _, done => ⟨_, rfl, .ended _⟩
  | [item], hitems, done => run?_render item hitems.1 done
  | item :: next :: rest, hitems, done => by
    obtain ⟨lexer, hrun, hholds⟩ := run?_render item hitems.1 done
    obtain ⟨last, hlast, hend⟩ := run?_renderItems (next :: rest) hitems.2
      (.comma :: (item.tokens.reverse ++ done))
    refine ⟨last, ?_, ?_⟩
    · rw [renderItems, run?_append, hrun, Option.bind_some]
      exact (hholds.run?_delimiter .comma _).trans hlast
    · simpa [itemTokens] using hend

theorem run?_renderMembers : (members : List (String × Json)) → StorableMembers members →
    (done : List Token) →
    ∃ lexer, run? ⟨done, .nothing⟩ (renderMembers members) = some lexer ∧
      Holds lexer ((memberTokens members).reverse ++ done)
  | [], _, done => ⟨_, rfl, .ended _⟩
  | [(key, value)], hmembers, done => by
    obtain ⟨lexer, hrun, hholds⟩ := run?_render value hmembers.1
      (.colon :: .string (StringText.write key) :: done)
    have hcolon : ∀ (before : List Token) tail, run? ⟨before, .nothing⟩ (code ':' :: tail) =
        run? ⟨.colon :: before, .nothing⟩ tail := fun _ _ => rfl
    refine ⟨lexer, ?_, ?_⟩
    · rw [renderMembers, run?_stringText, hcolon]
      exact hrun
    · simpa [memberTokens] using hholds
  | (key, value) :: next :: rest, hmembers, done => by
    obtain ⟨lexer, hrun, hholds⟩ := run?_render value hmembers.1
      (.colon :: .string (StringText.write key) :: done)
    obtain ⟨last, hlast, hend⟩ := run?_renderMembers (next :: rest) hmembers.2
      (.comma :: (value.tokens.reverse ++ .colon :: .string (StringText.write key) :: done))
    have hcolon : ∀ (before : List Token) tail, run? ⟨before, .nothing⟩ (code ':' :: tail) =
        run? ⟨.colon :: before, .nothing⟩ tail := fun _ _ => rfl
    refine ⟨last, ?_, ?_⟩
    · rw [renderMembers, List.append_assoc, run?_stringText, List.cons_append, hcolon, run?_append,
        hrun, Option.bind_some]
      exact (hholds.run?_delimiter .comma _).trans hlast
    · simpa [memberTokens] using hend

end

end Token.Lexer

/-- The text of a value has the tokens of the value. -/
theorem lex?_render {v : Json} (hv : v.Storable) : Token.lex? v.render = some v.tokens := by
  obtain ⟨lexer, hrun, hholds⟩ := Token.Lexer.run?_render v hv []
  rw [Token.lex?, hrun, Option.bind_some, hholds.finish?]
  simp

/-! ## Parsing -/

theorem tokens_eq_cons (v : Json) :
    ∃ token rest, v.tokens = token :: rest ∧ token ≠ .closeArray := by
  cases v <;> simp [tokens]

namespace Tree.Parser

/-- A value may begin in the same way where the array could have ended. -/
theorem run?_valueOrEnd (stack : List Frame) (v : Json) (rest : List Token) :
    run? (.awaiting .valueOrEnd stack) (v.tokens ++ rest) =
      run? (.awaiting .value stack) (v.tokens ++ rest) := by
  obtain ⟨token, more, htokens, hne⟩ := tokens_eq_cons v
  have hstep : step? (.awaiting .valueOrEnd stack) token =
      step? (.awaiting .value stack) token := by
    cases token <;> first | rfl | exact absurd rfl hne
  rw [htokens, List.cons_append, run?, run?, hstep]

theorem run?_key (stack : List Frame) (members : List (Option String × Tree)) (key : String)
    (rest : List Token) :
    run? (.awaiting .key (.object members none :: stack))
        (.string (StringText.write key) :: .colon :: rest) =
      run? (.awaiting .value (.object members (some key) :: stack)) rest := by
  have hkey : step? (.awaiting .key (.object members none :: stack))
      (.string (StringText.write key)) =
        some (.awaiting .colon (.object members (some key) :: stack)) := by
    rw [step?, key?, StringText.read?_write]
  rw [run?, hkey]
  rfl

theorem run?_keyOrEnd (stack : List Frame) (written : Bytes) (rest : List Token) :
    run? (.awaiting .keyOrEnd stack) (.string written :: rest) =
      run? (.awaiting .key stack) (.string written :: rest) := rfl

mutual

/-- The parser makes a tree of the tokens of a value and hands it on. -/
theorem run?_tokens : (v : Json) → v.Storable → (stack : List Frame) → (rest : List Token) →
    run? (.awaiting .value stack) (v.tokens ++ rest) = (deliver v.reread.toTree stack).run? rest
  | .null, _, stack, rest => rfl
  | .bool b, _, stack, rest => rfl
  | .number n, hn, stack, rest => by
    have hstep : step? (.awaiting .value stack) (.number (Bytes.ofAscii n.text)) =
        some (deliver (.number (some n.reread)) stack) := by
      rw [step?, begin?, Number.ofWritten?_text hn]
    rw [tokens, List.singleton_append, run?, hstep]
    rfl
  | .string s, _, stack, rest => by
    have hstep : step? (.awaiting .value stack) (.string (StringText.write s)) =
        some (deliver (.string (some s)) stack) := by
      rw [step?, begin?, StringText.read?_write]
    rw [tokens, List.singleton_append, run?, hstep]
    rfl
  | .array [], _, stack, rest => rfl
  | .array (item :: items), hitems, stack, rest => by
    have hopen : ∀ tail, run? (.awaiting .value stack) (.openArray :: tail) =
        run? (.awaiting .valueOrEnd (.array [] :: stack)) tail := fun _ => rfl
    have hclose : ∀ done, run? (.awaiting .commaOrEnd (.array done :: stack))
        (.closeArray :: rest) = (deliver (.array done.reverse) stack).run? rest := fun _ => rfl
    have hfirst : run? (.awaiting .valueOrEnd (.array [] :: stack))
        (itemTokens (item :: items) ++ .closeArray :: rest) =
        run? (.awaiting .value (.array [] :: stack))
          (itemTokens (item :: items) ++ .closeArray :: rest) := by
      cases items with
      | nil => exact run?_valueOrEnd _ item _
      | cons next more =>
        rw [itemTokens, List.append_assoc]
        exact run?_valueOrEnd _ item _
    rw [tokens, List.cons_append, hopen, List.append_assoc, List.singleton_append, hfirst,
      run?_itemTokens (item :: items) (by simp) hitems [] stack, hclose]
    simp [reread, toTree]
  | .object [], _, stack, rest => rfl
  | .object ((key, value) :: members), hmembers, stack, rest => by
    have hopen : ∀ tail, run? (.awaiting .value stack) (.openObject :: tail) =
        run? (.awaiting .keyOrEnd (.object [] none :: stack)) tail := fun _ => rfl
    have hclose : ∀ done, run? (.awaiting .commaOrEnd (.object done none :: stack))
        (.closeObject :: rest) = (deliver (.object done.reverse) stack).run? rest := fun _ => rfl
    have hfirst : run? (.awaiting .keyOrEnd (.object [] none :: stack))
        (memberTokens ((key, value) :: members) ++ .closeObject :: rest) =
        run? (.awaiting .key (.object [] none :: stack))
          (memberTokens ((key, value) :: members) ++ .closeObject :: rest) := by
      cases members with
      | nil => exact run?_keyOrEnd _ _ _
      | cons next more => exact run?_keyOrEnd _ _ _
    rw [tokens, List.cons_append, hopen, List.append_assoc, List.singleton_append, hfirst,
      run?_memberTokens ((key, value) :: members) (by simp) hmembers [] stack, hclose]
    simp [reread, toTree]

theorem run?_itemTokens : (items : List Json) → items ≠ [] → StorableItems items →
    (done : List Tree) → (stack : List Frame) → (rest : List Token) →
    run? (.awaiting .value (.array done :: stack)) (itemTokens items ++ rest) =
      run? (.awaiting .commaOrEnd
        (.array ((toTrees (rereadItems items)).reverse ++ done) :: stack)) rest
  | [], hne, _, done, stack, rest => absurd rfl hne
  | [item], _, hitems, done, stack, rest => by
    rw [itemTokens, run?_tokens item hitems.1]
    simp [rereadItems, toTrees, deliver]
  | item :: next :: more, _, hitems, done, stack, rest => by
    have hcomma : ∀ items tail, run? (.awaiting .commaOrEnd (.array items :: stack))
        (.comma :: tail) = run? (.awaiting .value (.array items :: stack)) tail := fun _ _ => rfl
    rw [itemTokens, List.append_assoc, run?_tokens item hitems.1, deliver, List.cons_append, hcomma,
      run?_itemTokens (next :: more) (by simp) hitems.2]
    simp [rereadItems, toTrees]

theorem run?_memberTokens : (members : List (String × Json)) → members ≠ [] →
    StorableMembers members → (done : List (Option String × Tree)) → (stack : List Frame) →
    (rest : List Token) →
    run? (.awaiting .key (.object done none :: stack)) (memberTokens members ++ rest) =
      run? (.awaiting .commaOrEnd
        (.object ((toTreeMembers (rereadMembers members)).reverse ++ done) none :: stack)) rest
  | [], hne, _, done, stack, rest => absurd rfl hne
  | [(key, value)], _, hmembers, done, stack, rest => by
    rw [memberTokens, List.cons_append, List.cons_append, run?_key, run?_tokens value hmembers.1]
    simp [rereadMembers, toTreeMembers, deliver]
  | (key, value) :: next :: more, _, hmembers, done, stack, rest => by
    have hcomma : ∀ members tail, run? (.awaiting .commaOrEnd (.object members none :: stack))
        (.comma :: tail) = run? (.awaiting .key (.object members none :: stack)) tail :=
      fun _ _ => rfl
    rw [memberTokens, List.cons_append, List.cons_append, List.append_assoc, run?_key,
      run?_tokens value hmembers.1, deliver, List.cons_append, hcomma,
      run?_memberTokens (next :: more) (by simp) hmembers.2]
    simp [rereadMembers, toTreeMembers]

end

end Tree.Parser

/-- The text of a value is read as the tree of the value, up to its floating-point numbers. -/
theorem parse?_render {v : Json} (hv : v.Storable) :
    Tree.parse? v.render = some v.reread.toTree := by
  have hrun := Tree.Parser.run?_tokens v hv [] []
  rw [List.append_nil] at hrun
  have hparse : Tree.parse? v.render =
      (Tree.Parser.run? (.awaiting .value []) v.tokens).bind Tree.Parser.finish? := by
    rw [Tree.parse?, lex?_render hv]
    rfl
  rw [hparse, hrun]
  rfl

end Keyring.Json
