import ForeignModule.Proofs.Token.Nesting
import ForeignModule.Proofs.Token.Outline
import ForeignModule.Signature.CHeader

/-!
# Headers without places

No search for a header in C asks where a token stands. Each of them finds in tokens that have lost
their places what it finds in the tokens themselves, without its places (`headers_placeless`), so
the signatures of a source are told by its outline (`ofC_of_outline`).
-/

namespace ForeignModule

namespace Token

/-- The token somewhere else. -/
def placeless (t : Token) : Token := { t with span := default }

variable {tokens tokens' : List Token}

theorem map_placeless_of_outlines (h : tokens.map outline = tokens'.map outline) :
    tokens.map placeless = tokens'.map placeless := by
  have hplaceless : ∀ ts : List Token, ts.map placeless
      = (ts.map outline).map fun o => ⟨o.kind, default, o.startsLine⟩ := by
    intro ts
    rw [List.map_map]
    rfl
  rw [hplaceless, hplaceless, h]

@[simp] theorem kind_placeless (t : Token) : t.placeless.kind = t.kind := rfl

@[simp] theorem startsLine_placeless (t : Token) : t.placeless.startsLine = t.startsLine := rfl

@[simp] theorem isWord_placeless (t : Token) (s : String) : t.placeless.isWord s = t.isWord s := rfl

@[simp] theorem identifier?_placeless (t : Token) : t.placeless.identifier? = t.identifier? := rfl

@[simp] theorem render_placeless (tokens : List Token) :
    render (tokens.map placeless) = render tokens := by
  rw [render, List.map_map]
  rfl

theorem group?_placeless (b : Bracket) (tokens : List Token) :
    group? b (tokens.map placeless) =
      (group? b tokens).map fun group => (group.1.map placeless, group.2.map placeless) :=
  group?_map (f := placeless) (fun _ => rfl) (fun _ => rfl) tokens

theorem splitTopLevel_placeless (separator : Kind) (depth : Int) (tokens : List Token) :
    splitTopLevel separator depth (tokens.map placeless)
      = (splitTopLevel separator depth tokens).map (List.map placeless) :=
  splitTopLevel_map (f := placeless) (fun _ => rfl) (fun _ => Iff.rfl) depth tokens

end Token

namespace Signature

open Token

namespace CHeader

theorem opensFileScope_placeless (before : List Token) :
    opensFileScope (before.map placeless) = opensFileScope before := by
  match before with
  | [] | [_] | _ :: _ :: _ => rfl

theorem parameter_placeless (tokens : List Token) :
    parameter (tokens.map placeless) = parameter tokens := by
  simp only [parameter, ← List.map_reverse, List.takeWhile_map, Function.comp_def, kind_placeless,
    List.length_map, List.length_reverse, ← List.map_drop, render_placeless]
  generalize tokens.reverse.drop _ = found
  cases found with
  | nil => rfl
  | cons name before =>
    simp only [List.map_cons, kind_placeless, ← List.map_reverse, render_placeless]

theorem list_placeless (tokens : List Token) :
    Parameter.list parameter (tokens.map placeless) = Parameter.list parameter tokens := by
  have hparts : ∀ parts : List (List Token),
      ((parts.map (List.map placeless)).filter (!·.isEmpty)).map parameter
        = (parts.filter (!·.isEmpty)).map parameter := by
    intro parts
    simp only [List.filter_map, List.map_map, Function.comp_def, List.isEmpty_map,
      parameter_placeless]
  rw [Parameter.list, splitTopLevel_placeless, hparts, Parameter.list]

theorem parameters_placeless (tokens : List Token) :
    parameters (tokens.map placeless) = parameters tokens := by
  have hlist := list_placeless tokens
  match tokens with
  | [] | _ :: _ :: _ => exact hlist
  | [t] =>
    simp only [List.map_cons, List.map_nil] at hlist
    simp only [List.map_cons, List.map_nil, parameters, isWord_placeless, hlist]

theorem header?_placeless (first : Token) (rest : List Token) :
    header? first.placeless (rest.map placeless) = header? first rest := by
  have hmore : (rest.map placeless).takeWhile isTypePart
      = (rest.takeWhile isTypePart).map placeless := List.takeWhile_map ..
  unfold header?
  rw [identifier?_placeless, hmore]
  generalize rest.takeWhile isTypePart = more
  cases first.identifier? with
  | none => rfl
  | some word =>
    refine congrArg ((guard (word ∉ otherStarts) : Option Unit) >>= ·) (funext fun _ => ?_)
    -- What is found is asked for its name and for its parameters only.
    simp only [List.getLast?_map, List.length_map, ← List.map_drop, group?_placeless, ← List.map_cons,
      ← List.map_dropLast, render_placeless, Option.bind_eq_bind, Option.bind_map, Function.comp_def,
      identifier?_placeless, parameters_placeless]

theorem headers_placeless (scopes : List Bool) (before : List Token) (skip : Nat)
    (tokens : List Token) :
    headers scopes (before.map placeless) skip (tokens.map placeless)
      = headers scopes before skip tokens := by
  induction tokens generalizing scopes before skip with
  | nil => rfl
  | cons t rest ih =>
    have ih' := fun scopes skip => ih scopes (t :: before) skip
    simp only [List.map_cons] at ih'
    cases skip with
    | succ skip => exact ih' scopes skip
    | zero =>
      simp only [List.map_cons, headers, kind_placeless, startsLine_placeless, opensFileScope_placeless,
        header?_placeless, ih']

end CHeader

/-- Sources with one outline have the same signatures, if they have any. -/
theorem ofC_of_outline {source source' : String} (h : outline .c source = outline .c source') :
    (ofC source).toOption = (ofC source').toOption := by
  unfold outline at h
  unfold ofC
  cases hleft : tokenize .c source with
  | error e =>
    cases hright : tokenize .c source' with
    | error e' => rfl
    | ok tokens => simp [hleft, hright] at h
  | ok tokens =>
    cases hright : tokenize .c source' with
    | error e => simp [hleft, hright] at h
    | ok tokens' =>
      rw [hleft, hright] at h
      have hsame := map_placeless_of_outlines (Except.ok.inj h)
      have hheaders := CHeader.headers_placeless [] [] 0 tokens
      rw [hsame, List.map_nil] at hheaders
      exact congrArg some (hheaders.symm.trans (CHeader.headers_placeless [] [] 0 tokens'))

end Signature

end ForeignModule
