import ForeignModule.Proofs.Token.Listing
import ForeignModule.Proofs.Token.Nesting
import ForeignModule.Signature.CHeader
import Mathlib.Data.Option.Basic

/-!
# C files and the functions that they declare

`Items tokens signatures` says that a token list is a sequence of declarations, definitions, blocks
that are still file scope, and records, and which signatures its functions have. Bodies and records
hold any tokens with balanced braces; blocks of file scope hold items again, to any depth.

`ofC_of_items`: these signatures are read from the file, no more and no fewer. The scan goes
through items at file scope with the stack of open blocks unchanged (`headers_of_items`), and finds
nothing while a block is open that is no file scope (`headers_opaque`).
-/

namespace ForeignModule.Signature

namespace CHeader

open Token

/-! ## Prototypes -/

/-- A parameter as it is written: its type and then its name. -/
structure Declared where
  type : List Token
  name : String
  nameToken : Of (.identifier name)
  typed : ∀ t ∈ type, isTypePart t = true

namespace Declared

/-- The tokens of a parameter. -/
def tokens (p : Declared) : List Token := p.type ++ [p.nameToken.1]

/-- What a parameter says. -/
def parameter (p : Declared) : Parameter := { name := p.name, type := Token.render p.type }

end Declared

/-- The parameters between the parentheses of a prototype. -/
inductive ParameterList : List Token → List Parameter → Prop where
  | void (t : Of (.identifier "void")) : ParameterList [t.1] []
  | declared {tokens : List Token} (ps : List Declared) :
      Separated .comma tokens (ps.map Declared.tokens) →
      (∀ t : Of (.identifier "void"), tokens ≠ [t.1]) →
      ParameterList tokens (ps.map Declared.parameter)

/-- A function header: a type, a name and a parameter list. It starts a line. -/
structure Prototype where
  first : Token
  word : String
  more : List Token
  name : String
  nameToken : Of (.identifier name)
  list : Group .paren
  parameters : List Parameter
  starts : first.startsLine = true
  isWord : first.kind = .identifier word
  notOther : word ∉ otherStarts
  typed : ∀ t ∈ more, isTypePart t = true
  listed : ParameterList list.inside parameters

namespace Prototype

variable (p : Prototype)

/-- The tokens behind the first one. -/
def behind : List Token := p.more ++ p.nameToken.1 :: p.list.tokens

/-- All tokens of a prototype. -/
def tokens : List Token := p.first :: p.behind

/-- What a prototype says. -/
def signature : Signature where
  name := p.name
  result := Token.render (p.first :: p.more)
  parameters := p.parameters

end Prototype

/-! ## Files -/

/-- What opens a block that is still file scope. -/
inductive ScopeHead : List Token → Prop where
  | linkage (word : Of (.identifier "extern")) {language : String} (literal : Of (.string language)) :
      ScopeHead [word.1, literal.1]
  | namespace (word : Of (.identifier "namespace")) {name : String} (x : Of (.identifier name)) :
      ScopeHead [word.1, x.1]

/-- The words that start the declaration of a record. -/
def recordWords : List String := ["struct", "union", "enum"]

/-- What a file consists of, with the signatures of its functions in order. -/
inductive Items : List Token → List Signature → Prop where
  | nil : Items [] []
  | declaration (p : Prototype) (semicolon : Of .semicolon) {rest : List Token}
      {signatures : List Signature} : Items rest signatures →
      Items (p.tokens ++ semicolon.1 :: rest) (p.signature :: signatures)
  | definition (p : Prototype) (body : Group .brace) {rest : List Token}
      {signatures : List Signature} : Items rest signatures →
      Items (p.tokens ++ (body.tokens ++ rest)) (p.signature :: signatures)
  | scope {head : List Token} (first : Of (.opening .brace)) (last : Of (.closing .brace))
      {inside rest : List Token} {inner signatures : List Signature} : ScopeHead head →
      Items inside inner → Items rest signatures →
      Items (head ++ first.1 :: (inside ++ last.1 :: rest)) (inner ++ signatures)
  | record {keyword name : String} (word : Of (.identifier keyword)) (x : Of (.identifier name))
      (body : Group .brace) (semicolon : Of .semicolon) {rest : List Token}
      {signatures : List Signature} : keyword ∈ recordWords → name ≠ "namespace" →
      Items rest signatures →
      Items (word.1 :: x.1 :: (body.tokens ++ semicolon.1 :: rest)) signatures

/-! ## Reading a prototype -/

theorem isTypePart_iff {t : Token} :
    isTypePart t = true ↔ t.kind = .star ∨ ∃ s, t.kind = .identifier s := by
  unfold isTypePart
  cases t.kind <;> simp [Kind.isIdentifier]

theorem parameter_tokens (p : Declared) : parameter p.tokens = p.parameter := by
  have hname : p.nameToken.1.kind.isIdentifier = true := by simp [p.nameToken.2, Kind.isIdentifier]
  have hbehind : p.tokens.reverse.takeWhile (!·.kind.isIdentifier) = [] := by
    simp [Declared.tokens, hname]
  unfold parameter
  simp only [hbehind]
  simp [Declared.tokens, Declared.parameter, p.nameToken.2, Kind.text, Token.render, Kind.render]

theorem parameters_of_list {tokens : List Token} {parameters : List Parameter}
    (h : ParameterList tokens parameters) : CHeader.parameters tokens = parameters := by
  cases h with
  | void t => simp [CHeader.parameters, isWord, t.2]
  | declared ps hs hvoid =>
    have hlist : Parameter.list parameter tokens = ps.map Declared.parameter := by
      rw [Parameter.list, hs.splitTopLevel rfl, hs.filter_isEmpty, List.map_map]
      exact List.map_congr_left fun p _ => parameter_tokens p
    unfold CHeader.parameters
    split
    · rename_i t
      have hnot : t.isWord "void" = false := by
        cases hw : t.isWord "void" with
        | false => rfl
        | true =>
          have hk : t.kind = .identifier "void" := by
            unfold isWord at hw
            cases hkind : t.kind <;> simp_all
          exact absurd rfl (hvoid ⟨t, hk⟩)
      simp [hnot, hlist]
    · exact hlist

theorem header?_prototype (p : Prototype) (rest : List Token) :
    header? p.first (p.behind ++ rest) = some (p.signature, p.behind.length) := by
  have hword : p.first.identifier? = some p.word := by
    simp [Token.identifier?, p.isWord, Kind.identifier?]
  have hname : p.nameToken.1.identifier? = some p.name := by
    simp [Token.identifier?, p.nameToken.2, Kind.identifier?]
  have hparen : isTypePart p.list.first.1 = false := by
    simp [isTypePart, p.list.first.2, Kind.isIdentifier]
  -- The type and the name end where the parameter list opens.
  have htype : ∀ t ∈ p.more ++ [p.nameToken.1], isTypePart t = true := by
    intro t ht
    rcases List.mem_append.1 ht with ht | ht
    · exact p.typed t ht
    · rw [List.mem_singleton.1 ht]
      exact isTypePart_iff.2 (.inr ⟨_, p.nameToken.2⟩)
  have hsplit : p.behind ++ rest = (p.more ++ [p.nameToken.1]) ++ (p.list.tokens ++ rest) := by
    simp [Prototype.behind]
  have hmore : (p.behind ++ rest).takeWhile isTypePart = p.more ++ [p.nameToken.1] := by
    rw [hsplit, List.takeWhile_append_of_pos htype]
    simp [Group.tokens, hparen]
  have hdrop : (p.behind ++ rest).drop (p.more ++ [p.nameToken.1]).length
      = p.list.tokens ++ rest := by
    rw [hsplit, List.drop_left]
  have hguard : (guard (p.word ∉ otherStarts) : Option Unit) = some () := if_pos p.notOther
  unfold header?
  simp only [hword, hmore, hdrop, Option.bind_eq_bind, Option.bind_some, hguard,
    List.getLast?_concat, hname, Group.group?_tokens, parameters_of_list p.listed,
    List.dropLast_concat]
  simp [Prototype.signature, Prototype.behind]
  omega

/-! ## Passing over tokens -/

section Passing

variable {scopes : List Bool} {before tokens rest : List Token} {t : Token}

/-- Tokens that belong to the header before are passed over. -/
theorem headers_skip : headers scopes before tokens.length (tokens ++ rest)
    = headers scopes (tokens.reverse ++ before) 0 rest := by
  induction tokens generalizing before with
  | nil => rfl
  | cons t tail ih =>
    rw [List.length_cons, List.cons_append, headers, ih]
    simp

/-- A token that is no brace and starts no header is passed over. -/
theorem headers_pass (hopen : t.kind ≠ .opening .brace) (hclose : t.kind ≠ .closing .brace)
    (hnone : scopes.all id = true → header? t rest = none) :
    headers scopes before 0 (t :: rest) = headers scopes (t :: before) 0 rest := by
  have hfirst : ¬t.kind.opens .brace = true := by simpa using hopen
  have hlast : ¬t.kind.closes .brace = true := by simpa using hclose
  have hheader : (if t.startsLine && scopes.all id then header? t rest else none) = none := by
    split
    · rename_i h
      exact hnone (Bool.and_eq_true_iff.1 h).2
    · rfl
  rw [headers]
  simp only [hfirst, hlast, Bool.false_eq_true, if_false, hheader]

theorem headers_open (h : t.kind = .opening .brace) :
    headers scopes before 0 (t :: rest)
      = headers (opensFileScope before :: scopes) (t :: before) 0 rest := by
  rw [headers]
  simp [h]

theorem headers_close (h : t.kind = .closing .brace) :
    headers scopes before 0 (t :: rest) = headers scopes.tail (t :: before) 0 rest := by
  rw [headers]
  simp [h]

/-- While a block is open that is no file scope, nothing is found, whatever it holds. -/
theorem headers_opaque (h : Balanced .brace tokens) (hs : scopes.all id = false) :
    headers scopes before 0 (tokens ++ rest)
      = headers scopes (tokens.reverse ++ before) 0 rest := by
  induction h generalizing scopes before rest with
  | nil => rfl
  | other ho hc _ ih =>
    rw [List.cons_append, headers_pass ho hc (by simp [hs]), ih hs]
    simp
  | group ho hc _ _ ihi ihr =>
    -- The block inside closes before the one around it does, so that one stays open.
    rw [List.cons_append, List.append_assoc, List.cons_append, headers_open ho,
      ihi (by simp [hs]), headers_close hc, List.tail_cons, ihr hs]
    simp

/-- A block that is no file scope hides all it holds. -/
theorem headers_body (body : Group .brace) (h : opensFileScope before = false) :
    headers scopes before 0 (body.tokens ++ rest)
      = headers scopes (body.tokens.reverse ++ before) 0 rest := by
  simp only [Group.tokens, List.cons_append, List.append_assoc, List.nil_append]
  rw [headers_open body.first.2, headers_opaque body.balanced (by simp [h]),
    headers_close body.last.2]
  simp

end Passing

/-! ## Reading a file -/

section Reading

variable {scopes : List Bool} {before rest : List Token}

/-- A header has a parenthesis behind its type and name. -/
theorem header?_eq_none {t : Token}
    (h : ∀ u, (rest.dropWhile isTypePart).head? = some u → u.kind ≠ .opening .paren) :
    header? t rest = none := by
  have hdrop : (rest.takeWhile isTypePart ++ rest.dropWhile isTypePart).drop
      (rest.takeWhile isTypePart).length = rest.dropWhile isTypePart := List.drop_left
  rw [List.takeWhile_append_dropWhile] at hdrop
  unfold header?
  simp [hdrop, group?_eq_none h]

/-- A header starts with a word. -/
theorem header?_of_not_word {t : Token} (h : t.identifier? = none) : header? t rest = none := by
  simp [header?, h]

/-- At file scope a prototype is found and passed over. -/
theorem headers_prototype (p : Prototype) (hs : scopes.all id = true) :
    headers scopes before 0 (p.tokens ++ rest)
      = p.signature :: headers scopes (p.tokens.reverse ++ before) 0 rest := by
  have hopen : ¬p.first.kind.opens .brace = true := by simp [p.isWord]
  have hclose : ¬p.first.kind.closes .brace = true := by simp [p.isWord]
  have hheader : (if p.first.startsLine && scopes.all id then header? p.first (p.behind ++ rest)
      else none) = some (p.signature, p.behind.length) := by
    simp [p.starts, hs, header?_prototype]
  rw [Prototype.tokens, List.cons_append, headers]
  simp only [hopen, hclose, Bool.false_eq_true, if_false, hheader, headers_skip]
  simp

/-- The block behind a parameter list is no file scope. -/
theorem opensFileScope_list (list : Group .paren) (before : List Token) :
    opensFileScope (list.tokens.reverse ++ before) = false := by
  have hlast : list.last.1.isWord "namespace" = false := by simp [isWord, list.last.2]
  have hliteral : ∀ s, list.last.1.kind ≠ .string s := by simp [list.last.2]
  simp only [Group.tokens, List.reverse_cons, List.reverse_append, List.reverse_nil,
    List.nil_append, List.cons_append, List.append_assoc]
  cases list.inside.reverse ++ list.first.1 :: before with
  | nil => simp [opensFileScope, hlast]
  | cons word tail =>
    simp [opensFileScope, hlast, list.last.2, Kind.isIdentifier]

/-- A word before a name and a block starts no header, and neither does the name. -/
theorem headers_block_head {keyword name : String} (word : Of (.identifier keyword))
    (x : Of (.identifier name)) (hrest : ∀ u, rest.head? = some u → u.kind = .opening .brace) :
    headers scopes before 0 (word.1 :: x.1 :: rest)
      = headers scopes (x.1 :: word.1 :: before) 0 rest := by
  have hx : isTypePart x.1 = true := isTypePart_iff.2 (.inr ⟨name, x.2⟩)
  have hstop : rest.dropWhile isTypePart = rest := by
    cases rest with
    | nil => rfl
    | cons u tail => simp [isTypePart, hrest u rfl, Kind.isIdentifier]
  have hparen : ∀ u, rest.head? = some u → u.kind ≠ .opening .paren := by
    intro u hu
    simp [hrest u hu]
  rw [headers_pass (by simp [word.2]) (by simp [word.2]), headers_pass (by simp [x.2])
    (by simp [x.2])]
  · exact fun _ => header?_eq_none (by rwa [hstop])
  · exact fun _ => header?_eq_none (by rwa [List.dropWhile_cons_of_pos hx, hstop])

/-- The block that a scope head opens is file scope. -/
theorem headers_scopeHead {head : List Token} (h : ScopeHead head) (first : Of (.opening .brace)) :
    headers scopes before 0 (head ++ first.1 :: rest)
      = headers (true :: scopes) (first.1 :: (head.reverse ++ before)) 0 rest := by
  cases h with
  | linkage word literal =>
    have hliteral : isTypePart literal.1 = false := by
      simp [isTypePart, literal.2, Kind.isIdentifier]
    have hscope : opensFileScope (literal.1 :: word.1 :: before) = true := by
      simp [opensFileScope, isWord, word.2, literal.2]
    rw [List.cons_append, List.cons_append, List.nil_append,
      headers_pass (by simp [word.2]) (by simp [word.2]),
      headers_pass (by simp [literal.2]) (by simp [literal.2]), headers_open first.2, hscope]
    · rfl
    · exact fun _ => header?_of_not_word (by simp [Token.identifier?, literal.2, Kind.identifier?])
    · exact fun _ => header?_eq_none (by simp [hliteral, literal.2])
  | «namespace» word x =>
    have hscope : opensFileScope (x.1 :: word.1 :: before) = true := by
      simp [opensFileScope, isWord, word.2, x.2, Kind.isIdentifier]
    rw [List.cons_append, List.cons_append, List.nil_append,
      headers_block_head word x (by simp [first.2]), headers_open first.2, hscope]
    rfl

/-- A semicolon is passed over. -/
theorem headers_semicolon (semicolon : Of .semicolon) :
    headers scopes before 0 (semicolon.1 :: rest)
      = headers scopes (semicolon.1 :: before) 0 rest := by
  refine headers_pass (by simp [semicolon.2]) (by simp [semicolon.2]) fun _ => ?_
  exact header?_of_not_word (by simp [Token.identifier?, semicolon.2, Kind.identifier?])

theorem opensFileScope_record {keyword name : String} (word : Of (.identifier keyword))
    (x : Of (.identifier name)) (hword : keyword ∈ recordWords) (hx : name ≠ "namespace") :
    opensFileScope (x.1 :: word.1 :: before) = false := by
  have hkeyword : keyword ≠ "extern" ∧ keyword ≠ "namespace" := by
    constructor <;> rintro rfl <;> exact absurd hword (by decide)
  simp [opensFileScope, isWord, word.2, x.2, hkeyword.1, hkeyword.2, hx]

/-- At file scope the scan goes through items and finds their signatures, with the stack of open
blocks unchanged. -/
theorem headers_of_items {tokens : List Token} {signatures : List Signature}
    (h : Items tokens signatures) (hs : scopes.all id = true) :
    headers scopes before 0 (tokens ++ rest)
      = signatures ++ headers scopes (tokens.reverse ++ before) 0 rest := by
  induction h generalizing scopes before rest with
  | nil => rfl
  | declaration p semicolon _ ih =>
    rw [List.append_assoc, headers_prototype p hs, List.cons_append, headers_semicolon, ih hs]
    simp
  | definition p body _ ih =>
    have hbody : opensFileScope (p.tokens.reverse ++ before) = false := by
      have := opensFileScope_list p.list (p.nameToken.1 :: (p.more.reverse ++ p.first :: before))
      simpa [Prototype.tokens, Prototype.behind] using this
    rw [List.append_assoc, List.append_assoc, headers_prototype p hs, headers_body body hbody, ih hs]
    simp
  | scope first last hhead _ _ ihi ihr =>
    rw [List.append_assoc, List.cons_append, List.append_assoc, List.cons_append,
      headers_scopeHead hhead, ihi (by simpa using hs), headers_close last.2, List.tail_cons, ihr hs]
    simp
  | record word x body semicolon hword hx _ ih =>
    rw [List.cons_append, List.cons_append, List.append_assoc, List.cons_append,
      headers_block_head word x (by simp [Group.tokens, body.first.2]),
      headers_body body (opensFileScope_record word x hword hx), headers_semicolon, ih hs]
    simp

end Reading

/-- The tokens of a whole file of items are read as their signatures. -/
theorem headers_of_file {tokens : List Token} {signatures : List Signature}
    (h : Items tokens signatures) : headers [] [] 0 tokens = signatures := by
  have hread : headers [] [] 0 (tokens ++ [])
      = signatures ++ headers [] (tokens.reverse ++ []) 0 [] :=
    headers_of_items h rfl
  simpa [headers] using hread

end CHeader

/-- From a file of items exactly their signatures are read, in order and with repetitions. -/
theorem ofC_of_items {source : String} {tokens : List Token} {signatures : List Signature}
    (htokens : tokenize .c source = .ok tokens) (h : CHeader.Items tokens signatures) :
    ofC source = .ok signatures := by
  simp [ofC, htokens, CHeader.headers_of_file h]

/-! ### A namespace and a definition -/

namespace CHeader

/-- A declaration in a namespace and a definition behind it. -/
def namespaceSource : String := "namespace n \x7b\nint f(char *p);\n\x7d\nvoid g(void) \x7b h(); \x7d\n"

/-- The parameter of the declaration. -/
def pointerParameter : Declared where
  type := [⟨.identifier "char", ⟨⟨20, 2, 7⟩, 24⟩, false⟩, ⟨.star, ⟨⟨25, 2, 12⟩, 26⟩, false⟩]
  name := "p"
  nameToken := ⟨⟨.identifier "p", ⟨⟨26, 2, 13⟩, 27⟩, false⟩, rfl⟩
  typed := by decide

/-- The declaration in the namespace. -/
def innerPrototype : Prototype where
  first := ⟨.identifier "int", ⟨⟨14, 2, 1⟩, 17⟩, true⟩
  word := "int"
  more := []
  name := "f"
  nameToken := ⟨⟨.identifier "f", ⟨⟨18, 2, 5⟩, 19⟩, false⟩, rfl⟩
  list :=
    { first := ⟨⟨.opening .paren, ⟨⟨19, 2, 6⟩, 20⟩, false⟩, rfl⟩
      inside := pointerParameter.tokens
      last := ⟨⟨.closing .paren, ⟨⟨27, 2, 14⟩, 28⟩, false⟩, rfl⟩
      balanced := .of_forall (by decide) }
  parameters := [pointerParameter.parameter]
  starts := rfl
  isWord := rfl
  notOther := by decide
  typed := by simp
  listed := .declared [pointerParameter] (.single (by simp [Declared.tokens])
    (.of_forall (by decide))) (by simp [Declared.tokens, pointerParameter])

/-- The definition behind it. -/
def outerPrototype : Prototype where
  first := ⟨.identifier "void", ⟨⟨32, 4, 1⟩, 36⟩, true⟩
  word := "void"
  more := []
  name := "g"
  nameToken := ⟨⟨.identifier "g", ⟨⟨37, 4, 6⟩, 38⟩, false⟩, rfl⟩
  list :=
    { first := ⟨⟨.opening .paren, ⟨⟨38, 4, 7⟩, 39⟩, false⟩, rfl⟩
      inside := [⟨.identifier "void", ⟨⟨39, 4, 8⟩, 43⟩, false⟩]
      last := ⟨⟨.closing .paren, ⟨⟨43, 4, 12⟩, 44⟩, false⟩, rfl⟩
      balanced := .of_forall (by decide) }
  parameters := []
  starts := rfl
  isWord := rfl
  notOther := by decide
  typed := by simp
  listed := .void ⟨_, rfl⟩

/-- The body of the definition. -/
def outerBody : Token.Group .brace where
  first := ⟨⟨.opening .brace, ⟨⟨45, 4, 14⟩, 46⟩, false⟩, rfl⟩
  inside :=
    [⟨.identifier "h", ⟨⟨47, 4, 16⟩, 48⟩, false⟩, ⟨.opening .paren, ⟨⟨48, 4, 17⟩, 49⟩, false⟩,
      ⟨.closing .paren, ⟨⟨49, 4, 18⟩, 50⟩, false⟩, ⟨.semicolon, ⟨⟨50, 4, 19⟩, 51⟩, false⟩]
  last := ⟨⟨.closing .brace, ⟨⟨52, 4, 21⟩, 53⟩, false⟩, rfl⟩
  balanced := .of_forall (by decide)

/-- All its tokens. -/
def namespaceTokens : List Token :=
  [⟨.identifier "namespace", ⟨⟨0, 1, 1⟩, 9⟩, true⟩, ⟨.identifier "n", ⟨⟨10, 1, 11⟩, 11⟩, false⟩] ++
    ⟨.opening .brace, ⟨⟨12, 1, 13⟩, 13⟩, false⟩ ::
      (innerPrototype.tokens ++ [⟨.semicolon, ⟨⟨28, 2, 15⟩, 29⟩, false⟩] ++
        ⟨.closing .brace, ⟨⟨30, 3, 1⟩, 31⟩, true⟩ :: (outerPrototype.tokens ++ (outerBody.tokens ++ [])))

theorem tokenize_namespaceSource : tokenize .c namespaceSource = .ok namespaceTokens :=
  Token.tokenize_eq_ok (by decide +kernel)

theorem items_namespaceTokens :
    Items namespaceTokens ([innerPrototype.signature] ++ [outerPrototype.signature]) :=
  .scope ⟨_, rfl⟩ ⟨_, rfl⟩ (.namespace ⟨_, rfl⟩ ⟨_, rfl⟩)
    (.declaration innerPrototype ⟨_, rfl⟩ .nil) (.definition outerPrototype outerBody .nil)

end CHeader

theorem ofC_namespaceSource : ofC CHeader.namespaceSource = .ok
    [{ name := "f", result := "int", parameters := [⟨"p", "char*"⟩] },
      { name := "g", result := "void", parameters := [] }] := by
  rw [ofC_of_items CHeader.tokenize_namespaceSource CHeader.items_namespaceTokens]
  exact congrArg Except.ok (by decide +kernel)

end ForeignModule.Signature
