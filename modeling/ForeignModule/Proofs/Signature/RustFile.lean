import ForeignModule.Proofs.Token.Listing
import ForeignModule.Proofs.Signature.RustExport

/-!
# Rust files as sequences of items

`Items tokens functions` says that a token list is a sequence of items, and which of them are functions that are
exported. Each of these has a list of typed parameters, perhaps a result type and a where clause, and then a
body or a semicolon. Blocks of imports carry the same mark, and so do types of function pointers, which may
stand anywhere: in headers, where clauses, bodies and in all other items.

`ofRust_of_items`: the signatures of these functions are read from the file, no more and no fewer. It comes down to
`functions_of_exports`, as nothing else in a file of items is taken for a header (`Items.exports`).
-/

namespace ForeignModule.Signature

namespace RustExport

open Token

/-! ## Exported functions -/

/-- A parameter as it is written: perhaps the word that makes it mutable, then its name and its type. -/
structure Declared where
  mutable : Option (Of (.identifier "mut"))
  name : String
  nameToken : Of (.identifier name)
  colon : Of .colon
  type : List Token
  named : name ≠ "mut"
  typed : Outer (·.kind ≠ .comma) type

namespace Declared

variable (p : Declared)

/-- The tokens before the colon. -/
def pattern : List Token := (p.mutable.map (·.1)).toList ++ [p.nameToken.1]

/-- The tokens of a parameter. -/
def tokens : List Token := p.pattern ++ p.colon.1 :: p.type

/-- What a parameter says. -/
def parameter : Parameter := { name := p.name, type := Token.render p.type }

end Declared

/-- Tokens in which the mark of an exported function stands only in types of function pointers. -/
inductive Passed : List Token → Prop where
  | nil : Passed []
  | other {t : Token} {rest : List Token} : t.isWord "extern" = false → Passed rest →
      Passed (t :: rest)
  | linkage {t u : Token} {rest : List Token} : u.kind ≠ .string "C" → Passed (u :: rest) →
      Passed (t :: u :: rest)
  | pointer (mark : Of (.identifier "extern")) (abi : Of (.string "C")) (fn : Of (.identifier "fn"))
      (list : Of (.opening .paren)) {rest : List Token} : Passed rest →
      Passed (mark.1 :: abi.1 :: fn.1 :: list.1 :: rest)

/-- What stands behind the header of a function: perhaps a where clause, and then a body or a semicolon. -/
inductive Ending : List Token → Prop where
  | declared (semicolon : Of .semicolon) : Ending [semicolon.1]
  | defined (body : Group .brace) : Passed body.inside → Ending body.tokens
  | bounded (word : Of (.identifier "where")) {bounds ending : List Token} : Passed bounds →
      Ending ending → Ending (word.1 :: (bounds ++ ending))

/-- An exported function: its header, with the parameters one by one, and what stands behind it. -/
structure Function where
  header : Header
  declared : List Declared
  ending : List Token
  parameters_eq : header.parameters = declared.map Declared.tokens
  ended : Ending ending

namespace Function

variable (f : Function)

/-- The tokens of a function. -/
def tokens : List Token := f.header.tokens ++ f.ending

/-- What a function says. -/
def signature : Signature where
  name := f.header.name
  result := f.header.result.elim unitType fun r => Token.render r.2
  parameters := f.declared.map Declared.parameter

end Function

/-! ## Files -/

/-- What a file consists of, with the functions that it exports in order. All items that are neither exported
functions nor blocks of imports, and what stands before the mark of a function, are other tokens. -/
inductive Items : List Token → List Function → Prop where
  | nil : Items [] []
  | exported (f : Function) {rest : List Token} {functions : List Function} : Items rest functions →
      Items (f.tokens ++ rest) (f :: functions)
  | imports (mark : Of (.identifier "extern")) (abi : Of (.string "C")) (block : Group .brace)
      {rest : List Token} {functions : List Function} : Passed block.inside → Items rest functions →
      Items (mark.1 :: abi.1 :: (block.tokens ++ rest)) functions
  | other {tokens rest : List Token} {functions : List Function} : Passed tokens →
      Items rest functions → Items (tokens ++ rest) functions

namespace Passed

/-- Where no mark starts, everything is passed over. -/
theorem of_forall {tokens : List Token} (h : ∀ t ∈ tokens, t.isWord "extern" = false) :
    Passed tokens := by
  induction tokens with
  | nil => exact .nil
  | cons t rest ih => exact .other (h t (by simp)) (ih fun u hu => h u (by simp [hu]))

theorem append {left right : List Token} (hl : Passed left) (hr : Passed right) :
    Passed (left ++ right) := by
  induction hl with
  | nil => exact hr
  | other ht _ ih => exact .other ht ih
  | linkage hu _ ih => exact .linkage hu ih
  | pointer mark abi fn list _ ih => exact .pointer mark abi fn list ih

end Passed

/-! ## Reading a function -/

theorem parameter_declared (p : Declared) : parameter p.tokens = p.parameter := by
  have hcolon : p.colon.1.kind = .colon := p.colon.2
  have hname : p.nameToken.1.isWord "mut" = false := by
    simp [isWord, p.nameToken.2, p.named]
  -- No token before the colon is one, and the word that is dropped is not the name.
  have hpattern : Outer (·.kind ≠ .colon) p.pattern := by
    refine .of_forall fun t ht => ?_
    rcases List.mem_append.1 ht with ht | ht
    · obtain ⟨m, -, rfl⟩ := Option.map_eq_some_iff.1 (Option.mem_toList.1 ht)
      simp [m.2, Kind.nesting]
    · rw [List.mem_singleton.1 ht]
      simp [p.nameToken.2, Kind.nesting]
  have hfilter : p.pattern.filter (!·.isWord "mut") = [p.nameToken.1] := by
    unfold Declared.pattern
    cases hm : p.mutable with
    | none => simp [hname]
    | some m =>
      have hmut : m.1.isWord "mut" = true := by simp [isWord, m.2]
      simp [hname, hmut]
  rw [parameter, Declared.tokens, breakTopLevel?_append hpattern hcolon]
  simp [hfilter, Declared.parameter, Token.render, Kind.render, p.nameToken.2, Kind.text]

/-- A header says what its function says. -/
theorem signature_header (f : Function) : f.header.signature = f.signature := by
  have hparameters : f.header.parameters.map parameter = f.declared.map Declared.parameter := by
    rw [f.parameters_eq, List.map_map]
    exact List.map_congr_left fun p _ => parameter_declared p
  simp [Header.signature, Function.signature, hparameters]

/-! ## Reading a file -/

section Reading

variable {tokens rest : List Token} {headers : List Header} {t : Token}

theorem Exports.pass (ht : t.isWord "extern" = false) (h : Exports rest headers) :
    Exports (t :: rest) headers := by
  refine .other (fun hmark => ?_) h
  simp [marked, ht] at hmark

/-- What is passed over exports nothing. -/
theorem Passed.exports (h : Passed tokens) (hrest : Exports rest headers) :
    Exports (tokens ++ rest) headers := by
  induction h with
  | nil => exact hrest
  | other ht _ ih => exact .pass ht ih
  | @linkage t u tail hu _ ih =>
    refine .other (fun hmark => ?_) ih
    simp [marked, hu] at hmark
  | pointer mark abi fn list _ ih =>
    -- Behind the mark comes `fn`, and a bracket instead of a name.
    refine .other (fun _ => .pointer (by simp [isWord, fn.2]) fun u hu => ?_) ?_
    · obtain rfl : list.1 = u := by simpa using hu
      simp [identifier?, list.2, Kind.identifier?]
    · exact .pass (by simp [isWord, abi.2]) (.pass (by simp [isWord, fn.2])
        (.pass (by simp [isWord, list.2]) ih))

theorem exports_group {b : Bracket} (g : Group b) (h : Passed g.inside)
    (hrest : Exports rest headers) : Exports (g.tokens ++ rest) headers := by
  have hlast : Exports (g.last.1 :: rest) headers := .pass (by simp [isWord, g.last.2]) hrest
  simpa [Group.tokens] using Exports.pass (by simp [isWord, g.first.2]) (h.exports hlast)

/-- What stands behind a header exports nothing. -/
theorem Ending.exports (h : Ending tokens) (hrest : Exports rest headers) :
    Exports (tokens ++ rest) headers := by
  induction h with
  | declared semicolon => exact .pass (by simp [isWord, semicolon.2]) hrest
  | defined body hbody => exact exports_group body hbody hrest
  | bounded word hbounds _ ih =>
    rw [List.cons_append, List.append_assoc]
    exact .pass (by simp [isWord, word.2]) (hbounds.exports ih)

/-- A header ends where its function goes on. -/
theorem Ending.endsHeader (h : Ending tokens) :
    ∀ t, (tokens ++ rest).head? = some t → endsHeader t = true := by
  intro t ht
  cases h with
  | declared semicolon =>
    obtain rfl : semicolon.1 = t := by simpa using ht
    simp [RustExport.endsHeader, semicolon.2]
  | defined body _ =>
    obtain rfl : body.first.1 = t := by simpa [Group.tokens] using ht
    simp [RustExport.endsHeader, body.first.2]
  | bounded word _ _ =>
    obtain rfl : word.1 = t := by simpa using ht
    simp [RustExport.endsHeader, isWord, word.2]

/-- A file of items exports exactly the headers of its functions. -/
theorem Items.exports {functions : List Function} (h : Items tokens functions) :
    Exports tokens (functions.map Function.header) := by
  induction h with
  | nil => exact .nil
  | exported f _ ih =>
    rw [Function.tokens, List.append_assoc]
    exact .function f.header f.ended.endsHeader (f.ended.exports ih)
  | @imports mark abi block rest functions hblock _ ih =>
    -- The search for `fn` ends at the brace that opens the block.
    refine .other (fun _ => ?_) (.pass (by simp [isWord, abi.2]) (exports_group block hblock ih))
    exact .ended (by simp [block.first.2, endsSearch])
  | other htokens _ ih => exact htokens.exports ih

end Reading

end RustExport

/-- From a file of items exactly the signatures of its exported functions are read, in order and with
repetitions. -/
theorem ofRust_of_items {source : String} {tokens : List Token}
    {functions : List RustExport.Function} (htokens : tokenize .rust source = .ok tokens)
    (h : RustExport.Items tokens functions) :
    ofRust source = .ok (functions.map RustExport.Function.signature) := by
  have hread : RustExport.functions 0 tokens
      = (functions.map RustExport.Function.header).map RustExport.Header.signature :=
    RustExport.functions_of_exports h.exports
  have hmap : (functions.map RustExport.Function.header).map RustExport.Header.signature
      = functions.map RustExport.Function.signature := by
    rw [List.map_map]
    exact List.map_congr_left fun f _ => RustExport.signature_header f
  simp [ofRust, htokens, hread, hmap]

/-! ### A function, a block of imports and a type -/

namespace RustExport

open Token

/-- A function that takes a callback, on two lines, and behind it a block of imports and the name of a type. -/
def callbackSource : String :=
  "pub extern \"C\" fn\nf<T>(mut g: extern \"C\" fn(T)) -> u8 where T: Copy \x7b 0 \x7d\n" ++
    "extern \"C\" \x7b fn h(); \x7d\ntype F = extern \"C\" fn();"

/-- The parameter of the function. -/
def callbackParameter : Declared where
  mutable := some ⟨⟨.identifier "mut", ⟨⟨23, 2, 6⟩, 26⟩, false⟩, rfl⟩
  name := "g"
  nameToken := ⟨⟨.identifier "g", ⟨⟨27, 2, 10⟩, 28⟩, false⟩, rfl⟩
  colon := ⟨⟨.colon, ⟨⟨28, 2, 11⟩, 29⟩, false⟩, rfl⟩
  type := [⟨.identifier "extern", ⟨⟨30, 2, 13⟩, 36⟩, false⟩, ⟨.string "C", ⟨⟨37, 2, 20⟩, 40⟩, false⟩,
    ⟨.identifier "fn", ⟨⟨41, 2, 24⟩, 43⟩, false⟩] ++
      ⟨.opening .paren, ⟨⟨43, 2, 26⟩, 44⟩, false⟩ ::
        ([⟨.identifier "T", ⟨⟨44, 2, 27⟩, 45⟩, false⟩] ++
          ⟨.closing .paren, ⟨⟨45, 2, 28⟩, 46⟩, false⟩ :: [])
  named := by decide
  typed := (Outer.of_forall (by decide)).append
    (.group (b := .paren) rfl rfl nofun (.of_forall (by decide)) .nil)

theorem outer_callbackParameter : Outer (·.kind ≠ .comma) callbackParameter.tokens := by
  have hpattern : Outer (·.kind ≠ .comma) (callbackParameter.pattern ++ [callbackParameter.colon.1]) :=
    .of_forall (by decide)
  exact hpattern.append callbackParameter.typed

/-- Its header. -/
def callbackHeader : Header where
  mark := ⟨⟨.identifier "extern", ⟨⟨4, 1, 5⟩, 10⟩, false⟩, rfl⟩
  abi := ⟨⟨.string "C", ⟨⟨11, 1, 12⟩, 14⟩, false⟩, rfl⟩
  qualifiers := []
  fn := ⟨⟨.identifier "fn", ⟨⟨15, 1, 16⟩, 17⟩, false⟩, rfl⟩
  name := "f"
  nameToken := ⟨⟨.identifier "f", ⟨⟨18, 2, 1⟩, 19⟩, true⟩, rfl⟩
  generics := some
    { first := ⟨⟨.opening .angle, ⟨⟨19, 2, 2⟩, 20⟩, false⟩, rfl⟩
      inside := [⟨.identifier "T", ⟨⟨20, 2, 3⟩, 21⟩, false⟩]
      last := ⟨⟨.closing .angle, ⟨⟨21, 2, 4⟩, 22⟩, false⟩, rfl⟩
      balanced := .of_forall (by decide) }
  list :=
    { first := ⟨⟨.opening .paren, ⟨⟨22, 2, 5⟩, 23⟩, false⟩, rfl⟩
      inside := callbackParameter.tokens
      last := ⟨⟨.closing .paren, ⟨⟨46, 2, 29⟩, 47⟩, false⟩, rfl⟩
      balanced := outer_callbackParameter.nested.balanced .paren }
  parameters := [callbackParameter.tokens]
  result := some (⟨⟨.arrow, ⟨⟨48, 2, 31⟩, 50⟩, false⟩, rfl⟩,
    [⟨.identifier "u8", ⟨⟨51, 2, 34⟩, 53⟩, false⟩])
  qualified := Header.qualified_nil
  listed := .single (by simp [Declared.tokens]) outer_callbackParameter
  resulting := by
    intro r hr
    injection hr with hr
    exact hr ▸ .of_forall (by decide)

/-- Its body. -/
def callbackBody : Group .brace where
  first := ⟨⟨.opening .brace, ⟨⟨68, 2, 51⟩, 69⟩, false⟩, rfl⟩
  inside := [⟨.number "0", ⟨⟨70, 2, 53⟩, 71⟩, false⟩]
  last := ⟨⟨.closing .brace, ⟨⟨72, 2, 55⟩, 73⟩, false⟩, rfl⟩
  balanced := .of_forall (by decide)

/-- The bounds of its where clause. -/
def callbackBounds : List Token :=
  [⟨.identifier "T", ⟨⟨60, 2, 43⟩, 61⟩, false⟩, ⟨.colon, ⟨⟨61, 2, 44⟩, 62⟩, false⟩,
    ⟨.identifier "Copy", ⟨⟨63, 2, 46⟩, 67⟩, false⟩]

/-- The whole function. -/
def callbackFunction : Function where
  header := callbackHeader
  declared := [callbackParameter]
  ending := ⟨.identifier "where", ⟨⟨54, 2, 37⟩, 59⟩, false⟩ :: (callbackBounds ++ callbackBody.tokens)
  parameters_eq := rfl
  ended := .bounded ⟨_, rfl⟩ (.of_forall (by decide)) (.defined callbackBody (.of_forall (by decide)))

/-- The block of imports. -/
def importBlock : Group .brace where
  first := ⟨⟨.opening .brace, ⟨⟨85, 3, 12⟩, 86⟩, false⟩, rfl⟩
  inside := [⟨.identifier "fn", ⟨⟨87, 3, 14⟩, 89⟩, false⟩, ⟨.identifier "h", ⟨⟨90, 3, 17⟩, 91⟩, false⟩,
    ⟨.opening .paren, ⟨⟨91, 3, 18⟩, 92⟩, false⟩, ⟨.closing .paren, ⟨⟨92, 3, 19⟩, 93⟩, false⟩,
    ⟨.semicolon, ⟨⟨93, 3, 20⟩, 94⟩, false⟩]
  last := ⟨⟨.closing .brace, ⟨⟨95, 3, 22⟩, 96⟩, false⟩, rfl⟩
  balanced := .of_forall (by decide)

/-- The name of a type. -/
def pointerType : List Token :=
  [⟨.identifier "type", ⟨⟨97, 4, 1⟩, 101⟩, true⟩, ⟨.identifier "F", ⟨⟨102, 4, 6⟩, 103⟩, false⟩,
    ⟨.equals, ⟨⟨104, 4, 8⟩, 105⟩, false⟩] ++
    [⟨.identifier "extern", ⟨⟨106, 4, 10⟩, 112⟩, false⟩, ⟨.string "C", ⟨⟨113, 4, 17⟩, 116⟩, false⟩,
      ⟨.identifier "fn", ⟨⟨117, 4, 21⟩, 119⟩, false⟩, ⟨.opening .paren, ⟨⟨119, 4, 23⟩, 120⟩, false⟩,
      ⟨.closing .paren, ⟨⟨120, 4, 24⟩, 121⟩, false⟩, ⟨.semicolon, ⟨⟨121, 4, 25⟩, 122⟩, false⟩]

/-- All tokens. -/
def callbackTokens : List Token :=
  [⟨.identifier "pub", ⟨⟨0, 1, 1⟩, 3⟩, true⟩] ++ (callbackFunction.tokens ++
    ⟨.identifier "extern", ⟨⟨74, 3, 1⟩, 80⟩, true⟩ :: ⟨.string "C", ⟨⟨81, 3, 8⟩, 84⟩, false⟩ ::
      (importBlock.tokens ++ (pointerType ++ [])))

theorem tokenize_callbackSource : tokenize .rust callbackSource = .ok callbackTokens :=
  Token.tokenize_eq_ok (by decide +kernel)

theorem items_callbackTokens : Items callbackTokens [callbackFunction] := by
  have htype : Passed pointerType :=
    (Passed.of_forall (by decide)).append (.pointer ⟨_, rfl⟩ ⟨_, rfl⟩ ⟨_, rfl⟩ ⟨_, rfl⟩
      (.of_forall (by decide)))
  exact .other (.of_forall (by decide)) (.exported callbackFunction
    (.imports ⟨_, rfl⟩ ⟨_, rfl⟩ importBlock (.of_forall (by decide)) (.other htype .nil)))

end RustExport

/-- The function is found, and neither the import nor the types of function pointers are taken for one. -/
theorem ofRust_callbackSource : ofRust RustExport.callbackSource = .ok
    [{ name := "f", result := "u8", parameters := [⟨"g", "extern \"C\" fn(T)"⟩] }] := by
  rw [ofRust_of_items RustExport.tokenize_callbackSource RustExport.items_callbackTokens]
  exact congrArg Except.ok (by decide +kernel)

end ForeignModule.Signature
