import ForeignModule.Proofs.Signature.KotlinFile
import ForeignModule.Proofs.Token.Splitting

/-!
# Default values of Kotlin parameters

A parameter is read up to the equals sign, so that its default value is left out whatever it is. But
where the value ends is told by a count of brackets that takes comparisons for brackets: of a
parameter list the parameters are read if that count is right again where it is asked for
(`Declaration.Counted`, `ofKotlin_of_declarations`).
-/

namespace ForeignModule

namespace Signature

namespace KotlinFunction

open Token

/-! ## Parameters -/

/-- A parameter as it is written: modifiers, a name and a type, perhaps with a default value. -/
structure Defaulted where
  modifiers : List Token
  name : String
  nameToken : Of (.identifier name)
  colon : Of .colon
  type : List Token
  value? : Option (Of .equals × List Token)
  modified : Outer (fun t => t.kind ≠ .colon ∧ t.kind ≠ .comma) modifiers
  typed : Outer (fun t => t.kind ≠ .comma ∧ t.kind ≠ .equals) type

namespace Defaulted

variable (p : Defaulted)

/-- The tokens before the colon. -/
def pattern : List Token := p.modifiers ++ [p.nameToken.1]

/-- The tokens from the equals sign on. -/
def value : List Token := p.value?.elim [] fun v => v.1.1 :: v.2

/-- The tokens of a parameter. -/
def tokens : List Token := p.pattern ++ p.colon.1 :: (p.type ++ p.value)

/-- What a parameter says. -/
def parameter : Parameter := { name := p.name, type := Token.render p.type }

end Defaulted

/-- Parameters with a comma behind each but the last, where one may stand as well. -/
inductive Listed : List Token → List Defaulted → Prop where
  | nil : Listed [] []
  | last (p : Defaulted) (trailing : Option (Of .comma)) :
      Listed (p.tokens ++ (trailing.map (·.1)).toList) [p]
  | cons (p : Defaulted) (comma : Of .comma) {rest : List Token} {ps : List Defaulted} (hne : ps ≠ [])
      (h : Listed rest ps) : Listed (p.tokens ++ comma.1 :: rest) (p :: ps)

/-- The count of brackets is right where it is asked for: it is not zero at a comma in a default value,
and it is zero behind every value but the last. -/
structure Counted (ps : List Defaulted) : Prop where
  hidden : ∀ p ∈ ps, Hidden .comma 0 p.value
  closed : ∀ p ∈ ps.dropLast, nestings p.value = 0

section

variable {p : Defaulted} {ps : List Defaulted} {tokens rest : List Token} {t : Token}

theorem parameter_defaulted (p : Defaulted) (more : List Token) (h : p.value? = none → more = []) :
    parameter (p.tokens ++ more) = p.parameter := by
  have hpattern : Outer (·.kind ≠ .colon) p.pattern :=
    (p.modified.imp fun t ht => ht.1).append
      (.other (by simp [p.nameToken.2, Kind.nesting]) (by simp [p.nameToken.2]) .nil)
  have hname : p.pattern.reverse.findSome? Token.identifier? = some p.name := by
    simp [Defaulted.pattern, Token.identifier?, p.nameToken.2, Kind.identifier?]
  have htype : Outer (·.kind ≠ .equals) p.type := p.typed.imp fun t ht => ht.2
  have hsplit : p.tokens ++ more = p.pattern ++ p.colon.1 :: (p.type ++ (p.value ++ more)) := by
    simp [Defaulted.tokens]
  rw [hsplit, parameter, breakTopLevel?_append hpattern p.colon.2]
  simp only [hname, Option.getD_some]
  cases hvalue : p.value? with
  | none =>
    -- The type is all that stands behind the colon.
    have hall : p.type ++ (p.value ++ more) = p.type := by simp [Defaulted.value, hvalue, h hvalue]
    rw [hall, breakTopLevel?_eq_none htype]
    rfl
  | some v =>
    have hequals : p.type ++ (p.value ++ more) = p.type ++ v.1.1 :: (v.2 ++ more) := by
      simp [Defaulted.value, hvalue]
    rw [hequals, breakTopLevel?_append htype v.1.2]
    rfl

/-- Outside brackets no comma stands in front of the default value. -/
theorem splitTopLevel_defaulted (h : Hidden .comma 0 p.value) :
    splitTopLevel .comma 0 (p.tokens ++ rest)
      = extendFirst p.tokens (splitTopLevel .comma (nestings p.value) rest) := by
  have hname : Outer (·.kind ≠ .comma) [p.nameToken.1] :=
    .other (by simp [p.nameToken.2, Kind.nesting]) (by simp [p.nameToken.2]) .nil
  have htype : Outer (·.kind ≠ .comma) (p.colon.1 :: p.type) :=
    .other (by simp [p.colon.2, Kind.nesting]) (by simp [p.colon.2]) (p.typed.imp fun t ht => ht.1)
  have hfront : Outer (·.kind ≠ .comma) (p.pattern ++ p.colon.1 :: p.type) :=
    ((p.modified.imp fun t ht => ht.2).append hname).append htype
  have hsplit : p.tokens = (p.pattern ++ p.colon.1 :: p.type) ++ p.value := by
    simp [Defaulted.tokens]
  rw [hsplit, List.append_assoc, splitTopLevel_append hfront rfl, splitTopLevel_hidden h rfl,
    Int.zero_add, ← extendFirst_append]

/-- A part is read as its parameter, also with what is taken in behind a default value. -/
theorem map_parameter_cons (p : Defaulted) (more : List Token) (parts : List (List Token))
    (h : p.value? = none → more = []) :
    (((p.tokens ++ more) :: parts).filter (!·.isEmpty)).map parameter
      = p.parameter :: (parts.filter (!·.isEmpty)).map parameter := by
  have hne : (!(p.tokens ++ more).isEmpty) = true := by simp [Defaulted.tokens, Defaulted.pattern]
  simp only [List.filter_cons, hne, if_true, List.map_cons, parameter_defaulted p more h]

/-- Of a list in which the count is right the parameters are read. -/
theorem list_listed (h : Listed tokens ps) (hcounted : Counted ps) :
    Parameter.list parameter tokens = ps.map Defaulted.parameter := by
  unfold Parameter.list
  induction h with
  | nil => rfl
  | last p trailing =>
    -- If the count is not right behind the value, it takes in a comma behind it.
    obtain ⟨more, hmore, hparts⟩ : ∃ more, (p.value? = none → more = []) ∧
        splitTopLevel .comma 0 (p.tokens ++ (trailing.map (·.1)).toList) = [p.tokens ++ more] := by
      have hne : p.tokens ≠ [] := by simp [Defaulted.tokens]
      rw [splitTopLevel_defaulted (hcounted.hidden p List.mem_cons_self)]
      cases trailing with
      | none => exact ⟨[], fun _ => rfl, by simp [splitTopLevel, extendFirst, hne]⟩
      | some comma =>
        by_cases hclosed : nestings p.value = 0
        · refine ⟨[], fun _ => rfl, ?_⟩
          rw [hclosed]
          exact congrArg (extendFirst p.tokens) (splitTopLevel_cut rfl comma.2)
        · refine ⟨[comma.1], fun hnone => absurd (by simp [Defaulted.value, hnone]) hclosed, ?_⟩
          have hopen : nestings p.value + comma.1.kind.nesting ≠ 0 := by
            simpa [comma.2, Kind.nesting] using hclosed
          exact congrArg (extendFirst p.tokens) (splitTopLevel_cons (.inl hopen))
    rw [hparts, map_parameter_cons p more [] hmore]
    rfl
  | @cons p comma rest ps hlist _ ih =>
    have hdrop : (p :: ps).dropLast = p :: ps.dropLast := List.dropLast_cons_of_ne_nil hlist
    have hclosed : nestings p.value = 0 := hcounted.closed p (hdrop ▸ List.mem_cons_self)
    have hrest : Counted ps := ⟨fun q hq => hcounted.hidden q (List.mem_cons_of_mem _ hq),
      fun q hq => hcounted.closed q (hdrop ▸ List.mem_cons_of_mem _ hq)⟩
    have hparts : splitTopLevel .comma 0 (p.tokens ++ comma.1 :: rest)
        = (p.tokens ++ []) :: splitTopLevel .comma 0 rest := by
      rw [splitTopLevel_defaulted (hcounted.hidden p List.mem_cons_self), hclosed,
        splitTopLevel_cut rfl comma.2]
      rfl
    rw [hparts, map_parameter_cons p [] _ fun _ => rfl, ih hrest]
    rfl

end

/-! ## Functions and files -/

/-- A function whose parameters may have default values. -/
structure Declaration where
  heading : Heading
  parameters : List Defaulted
  listed : Listed heading.list.inside parameters

/-- What a function says. -/
def Declaration.signature (d : Declaration) : Signature :=
  d.heading.signature (d.parameters.map Defaulted.parameter)

/-- What a file consists of, with the functions that it exports in order. The bodies of functions are
among the other things. -/
inductive Declarations : List Token → List Declaration → Prop where
  | nil : Declarations [] []
  | function (d : Declaration) {rest : List Token} {ds : List Declaration} (hends : EndsHeading rest)
      (h : Declarations rest ds) : Declarations (d.heading.tokens ++ rest) (d :: ds)
  | other {tokens rest : List Token} {ds : List Declaration} (hquiet : Quiet tokens)
      (h : Declarations rest ds) : Declarations (tokens ++ rest) ds

theorem functions_of_declarations {tokens : List Token} {ds : List Declaration}
    (h : Declarations tokens ds) (hcounted : ∀ d ∈ ds, Counted d.parameters) :
    functions 0 0 tokens = match ds.find? (·.heading.result.isNone) with
      | some d => .error (.missingResultType d.heading.name d.heading.fn.1.line)
      | none => .ok (ds.map Declaration.signature) := by
  induction h with
  | nil => rfl
  | @function d rest ds hends _ ih =>
    obtain ⟨hd, hds⟩ := List.forall_mem_cons.1 hcounted
    rw [functions_heading d.heading hends, list_listed d.listed hd, ih hds]
    cases hresult : d.heading.result with
    | none => simp [hresult]
    | some r =>
      simp only [Option.isSome_some, if_true, List.find?_cons, hresult, Option.isNone_some]
      cases ds.find? (·.heading.result.isNone) <;> rfl
  | other hquiet _ ih => rw [functions_quiet hquiet, ih hcounted]

end KotlinFunction

/-- From a file whose parameters may have default values the functions are read with their parameters,
without the values, if the count of brackets is right in each list. -/
theorem ofKotlin_of_declarations {source : String} {tokens : List Token}
    {ds : List KotlinFunction.Declaration} (htokens : tokenize .kotlin source = .ok tokens)
    (h : KotlinFunction.Declarations tokens ds)
    (hcounted : ∀ d ∈ ds, KotlinFunction.Counted d.parameters) :
    ofKotlin source = match ds.find? (·.heading.result.isNone) with
      | some d => .error (.missingResultType d.heading.name d.heading.fn.1.line)
      | none => .ok (ds.map KotlinFunction.Declaration.signature) := by
  simp only [ofKotlin, htokens, KotlinFunction.functions_of_declarations h hcounted]

/-! ### Values with a call and with a comparison -/

namespace KotlinFunction

open Token

/-- A function whose first parameter has a call for its value, and whose last one has a comparison. -/
def defaultSource : String := "fun f(a: Int = max(1, 2), b: Boolean = 1 < 2): Int = 0"

/-- The arguments of the call. -/
def callArguments : Group .paren where
  first := ⟨⟨.opening .paren, ⟨⟨18, 1, 19⟩, 19⟩, false⟩, rfl⟩
  inside := [⟨.number "1", ⟨⟨19, 1, 20⟩, 20⟩, false⟩, ⟨.comma, ⟨⟨20, 1, 21⟩, 21⟩, false⟩,
    ⟨.number "2", ⟨⟨22, 1, 23⟩, 23⟩, false⟩]
  last := ⟨⟨.closing .paren, ⟨⟨23, 1, 24⟩, 24⟩, false⟩, rfl⟩
  balanced := .of_forall (by decide)

theorem unmodified : Outer (fun t => t.kind ≠ .colon ∧ t.kind ≠ .comma) [] := .nil

/-- The first parameter. -/
def callParameter : Defaulted where
  modifiers := []
  name := "a"
  nameToken := ⟨⟨.identifier "a", ⟨⟨6, 1, 7⟩, 7⟩, false⟩, rfl⟩
  colon := ⟨⟨.colon, ⟨⟨7, 1, 8⟩, 8⟩, false⟩, rfl⟩
  type := [⟨.identifier "Int", ⟨⟨9, 1, 10⟩, 12⟩, false⟩]
  value? := some (⟨⟨.equals, ⟨⟨13, 1, 14⟩, 14⟩, false⟩, rfl⟩,
    ⟨.identifier "max", ⟨⟨15, 1, 16⟩, 18⟩, false⟩ :: callArguments.tokens)
  modified := unmodified
  typed := .of_forall (by decide)

/-- The last parameter. -/
def comparisonParameter : Defaulted where
  modifiers := []
  name := "b"
  nameToken := ⟨⟨.identifier "b", ⟨⟨26, 1, 27⟩, 27⟩, false⟩, rfl⟩
  colon := ⟨⟨.colon, ⟨⟨27, 1, 28⟩, 28⟩, false⟩, rfl⟩
  type := [⟨.identifier "Boolean", ⟨⟨29, 1, 30⟩, 36⟩, false⟩]
  value? := some (⟨⟨.equals, ⟨⟨37, 1, 38⟩, 38⟩, false⟩, rfl⟩,
    [⟨.number "1", ⟨⟨39, 1, 40⟩, 40⟩, false⟩, ⟨.opening .angle, ⟨⟨41, 1, 42⟩, 42⟩, false⟩,
      ⟨.number "2", ⟨⟨43, 1, 44⟩, 44⟩, false⟩])
  modified := unmodified
  typed := .of_forall (by decide)

theorem balanced_parameters : Balanced .paren (callParameter.tokens ++
    ⟨.comma, ⟨⟨24, 1, 25⟩, 25⟩, false⟩ :: (comparisonParameter.tokens ++ [])) := by
  have hfront : Balanced .paren (callParameter.tokens.take 5) := .of_forall (by decide)
  have harguments : Balanced .paren callArguments.tokens :=
    .group callArguments.first.2 callArguments.last.2 callArguments.balanced .nil
  exact (hfront.append harguments).append (.of_forall (by decide))

/-- The function. -/
def defaultDeclaration : Declaration where
  heading :=
    { fn := ⟨⟨.identifier "fun", ⟨⟨0, 1, 1⟩, 3⟩, true⟩, rfl⟩
      generics := none
      name := "f"
      nameToken := ⟨⟨.identifier "f", ⟨⟨4, 1, 5⟩, 5⟩, false⟩, rfl⟩
      list :=
        { first := ⟨⟨.opening .paren, ⟨⟨5, 1, 6⟩, 6⟩, false⟩, rfl⟩
          inside := callParameter.tokens ++ ⟨.comma, ⟨⟨24, 1, 25⟩, 25⟩, false⟩ ::
            (comparisonParameter.tokens ++ [])
          last := ⟨⟨.closing .paren, ⟨⟨44, 1, 45⟩, 45⟩, false⟩, rfl⟩
          balanced := balanced_parameters }
      result := some (⟨⟨.colon, ⟨⟨45, 1, 46⟩, 46⟩, false⟩, rfl⟩,
        { name := [⟨.identifier "Int", ⟨⟨47, 1, 48⟩, 50⟩, false⟩]
          arguments := none
          mark := none
          qualified := .name ⟨_, rfl⟩ (by decide) }) }
  parameters := [callParameter, comparisonParameter]
  listed := .cons callParameter ⟨_, rfl⟩ (by decide) (.last comparisonParameter none)

/-- Its body. -/
def defaultBody : List Token :=
  [⟨.equals, ⟨⟨51, 1, 52⟩, 52⟩, false⟩, ⟨.number "0", ⟨⟨53, 1, 54⟩, 54⟩, false⟩]

theorem declarations_default :
    Declarations (defaultDeclaration.heading.tokens ++ (defaultBody ++ [])) [defaultDeclaration] := by
  have hbody : Quiet (defaultBody ++ []) := .append (by decide) .nil
  exact .function defaultDeclaration (by simp [EndsHeading, defaultBody]) (.other hbody .nil)

end KotlinFunction

/-- Both values are left out. -/
theorem ofKotlin_defaultSource :
    ofKotlin KotlinFunction.defaultSource = .ok
      [{ name := "f", result := "Int", parameters := [⟨"a", "Int"⟩, ⟨"b", "Boolean"⟩] }] := by
  have hcounted : KotlinFunction.Counted
      [KotlinFunction.callParameter, KotlinFunction.comparisonParameter] :=
    ⟨by decide, by decide⟩
  rw [ofKotlin_of_declarations (Token.tokenize_eq_ok (by decide +kernel))
    KotlinFunction.declarations_default (List.forall_mem_singleton.2 hcounted)]
  exact congrArg Except.ok (by decide +kernel)

/-- A comparison in front of another parameter takes that in. -/
theorem ofKotlin_comparison :
    (ofKotlin "fun f(a: Boolean = x < y, b: Int): Int = 0").toOption
      = some [{ name := "f", result := "Int", parameters := [⟨"a", "Boolean"⟩] }] := by
  decide +kernel

end Signature

end ForeignModule
