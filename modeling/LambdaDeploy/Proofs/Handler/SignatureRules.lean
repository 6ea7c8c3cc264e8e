import LambdaDeploy.Handler.Signature
import LambdaDeploy.Proofs.Ty.Leaves

/-!
# The rules for the signature of a handler

A handler takes two parameters and nothing else, the first is the dispatcher's context, every name
in the type of the second is known, and the result is one of three types or a union of them.  The
rules are stated of the function alone: no rule asks how a union is put together.

* `FunctionDecl.Takes`, `Dispatcher.ContextType`, `Ty.Known`, `Ty.Replies` — the four rules.
* `Dispatcher.checkSignature_of_takes`, `Dispatcher.checkSignature_of_not_takes` — the check, with
  and without the right parameters; `Dispatcher.checkSignature_eq_ok_iff` — what it accepts.
* `Dispatcher.verdict` — the rule that a function violates, without the wording.
* `checkSignature_decides` — **the check accepts exactly the functions that follow the rules**,
  and reports the first rule that is violated.
-/

namespace LambdaDeploy

variable {dispatcher : Dispatcher} {scope : Scope} {f : FunctionDecl} {context payload : Param}
  {type other : Ty}

/-! ## The rules -/

/-- The function takes these two parameters, which have no default values, and nothing else. -/
structure FunctionDecl.Takes (f : FunctionDecl) (context payload : Param) : Prop where
  params : f.params = [context, payload]
  context : context.default = none
  payload : payload.default = none
  rest : f.restParam = none

/-- The type is the context type that the dispatcher's package declares, in any version. -/
def Dispatcher.ContextType (dispatcher : Dispatcher) (type : Ty) : Prop :=
  ∃ package : Package, type = .named package dispatcher.contextType ∧
    package.org = dispatcher.org ∧ package.name = dispatcher.package

/-- No unresolved name occurs in the type. -/
def Ty.Known (type : Ty) : Prop := ∀ text, ¬Occurs (.unresolved text) type

/-- Every leaf of the type is `json`, `error` or `()`. -/
def Ty.Replies (type : Ty) : Prop :=
  ∀ leaf, Leaf leaf type →
    leaf = .builtin .json ∨ leaf = .builtin .error ∨ leaf = .builtin .nil

theorem Dispatcher.isContext_iff :
    dispatcher.isContext type = true ↔ dispatcher.ContextType type := by
  rw [isContext, ContextType]
  cases type with
  | named package name => simp [Ty.isNamed, Package.isNamed_iff, and_comm]
  | _ => exact iff_of_false nofun nofun

theorem Ty.isResolved_iff_known : type.isResolved = true ↔ type.Known := isResolved_iff type

theorem Ty.isReply_iff :
    type.isReply = true ↔
      type = .builtin .json ∨ type = .builtin .error ∨ type = .builtin .nil := by
  cases type with
  | builtin b => cases b <;> simp [isReply]
  | _ => simp [isReply]

theorem Ty.all_isReply_iff : type.members.all isReply = true ↔ type.Replies := by
  simp only [List.all_eq_true, mem_members_iff, isReply_iff, Replies]

/-! ## The check -/

/-- A list of two parameters without default values has no parameter with one. -/
theorem FunctionDecl.takes_iff :
    f.Takes context payload ↔
      f.params = [context, payload] ∧ f.defaultableParams = [] ∧ f.restParam = none := by
  constructor
  · rintro ⟨hparams, hcontext, hpayload, hrest⟩
    exact ⟨hparams, by simp [defaultableParams, hparams, hcontext, hpayload], hrest⟩
  · rintro ⟨hparams, hdefaultable, hrest⟩
    have hnone : context.default = none ∧ payload.default = none := by
      simpa [defaultableParams, hparams] using hdefaultable
    exact ⟨hparams, hnone.1, hnone.2, hrest⟩

namespace Dispatcher

/-- With the right parameters, the three other rules are checked one after the other. -/
theorem checkSignature_of_takes (scope : Scope) (h : f.Takes context payload) :
    dispatcher.checkSignature scope f =
      if dispatcher.isContext context.type then
        if payload.type.isResolved then
          if f.declaredReturn.members.all Ty.isReply then .ok ()
          else .error (.returnType (scope.renderType f.declaredReturn))
        else .error (.unresolvedPayload payload.name)
      else .error (.contextType dispatcher.contextName (scope.renderType context.type)) := by
  obtain ⟨hparams, hdefaultable, hrest⟩ := FunctionDecl.takes_iff.1 h
  rw [checkSignature, hparams, hdefaultable, hrest]
  simp only [Bool.not_eq_true', ← Bool.not_eq_true, ite_not]

/-- With other parameters, these are reported. -/
theorem checkSignature_of_not_takes (scope : Scope)
    (h : ∀ context payload, ¬f.Takes context payload) :
    dispatcher.checkSignature scope f =
      .error (.parameterShape (f.params.countP (·.default.isNone))
        (f.params.countP (·.default.isSome)) f.restParam.isSome) := by
  rw [List.countP_eq_length_filter, List.countP_eq_length_filter, checkSignature]
  split
  · rename_i context payload hparams hdefaultable hrest
    exact absurd (FunctionDecl.takes_iff.2 ⟨hparams, hdefaultable, hrest⟩) (h context payload)
  · rfl

/-- The check accepts what follows the four rules, and nothing else. -/
theorem checkSignature_eq_ok_iff (scope : Scope) (f : FunctionDecl) :
    dispatcher.checkSignature scope f = .ok () ↔
      ∃ context payload, f.Takes context payload ∧ dispatcher.ContextType context.type ∧
        payload.type.Known ∧ f.declaredReturn.Replies := by
  constructor
  · intro hok
    by_cases htakes : ∃ context payload, f.Takes context payload
    · obtain ⟨context, payload, htakes⟩ := htakes
      rw [checkSignature_of_takes scope htakes] at hok
      split at hok
      · rename_i hcontext
        split at hok
        · rename_i hpayload
          split at hok
          · rename_i hresult
            exact ⟨context, payload, htakes, isContext_iff.1 hcontext,
              Ty.isResolved_iff_known.1 hpayload, Ty.all_isReply_iff.1 hresult⟩
          · cases hok
        · cases hok
      · cases hok
    · push Not at htakes
      rw [checkSignature_of_not_takes scope htakes] at hok
      cases hok
  · rintro ⟨context, payload, htakes, hcontext, hpayload, hresult⟩
    rw [checkSignature_of_takes scope htakes, if_pos (isContext_iff.2 hcontext),
      if_pos (Ty.isResolved_iff_known.2 hpayload), if_pos (Ty.all_isReply_iff.2 hresult)]

end Dispatcher

/-! ## Verdicts -/

/-- The rules that a signature can violate. -/
inductive SignatureRule where
  | parameters
  | context
  | payload
  | result
deriving DecidableEq

/-- The rule that a violation is about. -/
def Violation.rule : Violation → SignatureRule
  | parameterShape .. => .parameters
  | contextType .. => .context
  | unresolvedPayload _ => .payload
  | returnType _ => .result

/-- What the check says of a function, without the types and names that it quotes. -/
def Dispatcher.verdict (dispatcher : Dispatcher) (scope : Scope) (f : FunctionDecl) :
    Except SignatureRule Unit :=
  (dispatcher.checkSignature scope f).mapError Violation.rule

namespace Dispatcher

theorem verdict_of_takes (scope : Scope) (h : f.Takes context payload) :
    dispatcher.verdict scope f =
      if dispatcher.isContext context.type then
        if payload.type.isResolved then
          if f.declaredReturn.members.all Ty.isReply then .ok () else .error .result
        else .error .payload
      else .error .context := by
  rw [verdict, checkSignature_of_takes scope h]
  simp only [apply_ite (Except.mapError Violation.rule)]
  rfl

/-- Of the result type the verdict asks one thing only. -/
theorem verdict_of_returnType (scope : Scope) {returnType : Option Ty}
    (h : (returnType.getD (.builtin .nil)).members.all Ty.isReply =
      f.declaredReturn.members.all Ty.isReply) :
    dispatcher.verdict scope { f with returnType := returnType } = dispatcher.verdict scope f := by
  by_cases htakes : ∃ context payload, f.Takes context payload
  · obtain ⟨context, payload, htakes⟩ := htakes
    have hother : FunctionDecl.Takes { f with returnType := returnType } context payload :=
      ⟨htakes.params, htakes.context, htakes.payload, htakes.rest⟩
    rw [verdict_of_takes scope hother, verdict_of_takes scope htakes, ← h]
    rfl
  · push Not at htakes
    have hother : ∀ context payload,
        ¬FunctionDecl.Takes { f with returnType := returnType } context payload :=
      fun context payload h => htakes context payload ⟨h.params, h.context, h.payload, h.rest⟩
    rw [verdict, verdict, checkSignature_of_not_takes scope htakes,
      checkSignature_of_not_takes scope hother]

end Dispatcher

/-- The function with another type of its second parameter, if it has one. -/
def FunctionDecl.withPayload (f : FunctionDecl) (type : Ty) : FunctionDecl :=
  { f with params := f.params.modify 1 fun param => { param with type := type } }

theorem FunctionDecl.takes_withPayload_iff :
    (f.withPayload type).Takes context payload ↔
      ∃ old, payload = { old with type := type } ∧ f.Takes context old := by
  constructor
  · rintro ⟨hparams, hcontext, hpayload, hrest⟩
    rw [withPayload] at hparams
    match hlist : f.params with
    | [] | [_] | _ :: _ :: _ :: _ => simp [hlist] at hparams
    | [first, second] =>
      rw [hlist] at hparams
      cases hparams
      exact ⟨second, rfl, hlist, hcontext, hpayload, hrest⟩
  · rintro ⟨old, rfl, hparams, hcontext, hpayload, hrest⟩
    exact ⟨by rw [withPayload, hparams]; rfl, hcontext, hpayload, hrest⟩

/-- The type of a parameter does not matter for what it counts as. -/
theorem FunctionDecl.countP_withPayload (p : Option String → Bool) :
    (f.withPayload type).params.countP (fun param => p param.default) =
      f.params.countP fun param => p param.default := by
  rw [withPayload]
  match f.params with
  | [] | [_] => rfl
  | _ :: _ :: _ => simp [List.modify_succ_cons, List.countP_cons]

/-- Of the payload's type the check asks one thing only. -/
theorem Dispatcher.checkSignature_withPayload (scope : Scope)
    (hpayload : f.params[1]? = some payload) (h : type.isResolved = payload.type.isResolved) :
    dispatcher.checkSignature scope (f.withPayload type) = dispatcher.checkSignature scope f := by
  by_cases htakes : ∃ context payload, f.Takes context payload
  · obtain ⟨context, old, htakes⟩ := htakes
    obtain rfl : old = payload := by simpa [htakes.params] using hpayload
    rw [checkSignature_of_takes scope htakes,
      checkSignature_of_takes scope (FunctionDecl.takes_withPayload_iff.2 ⟨old, rfl, htakes⟩)]
    dsimp only
    rw [h]
    rfl
  · push Not at htakes
    rw [checkSignature_of_not_takes scope htakes, checkSignature_of_not_takes scope,
      FunctionDecl.countP_withPayload, FunctionDecl.countP_withPayload]
    · rfl
    · intro context payload hother
      obtain ⟨old, -, hold⟩ := FunctionDecl.takes_withPayload_iff.1 hother
      exact htakes context old hold

/-! ## The decision -/

/-- **The check accepts exactly the functions that follow the rules**: two parameters without
default values and no other, the dispatcher's context as the first, no unresolved name in the type
of the second, and a result whose leaves are `json`, `error` or `()`.  Otherwise it reports the
first rule that is violated.  A function that keeps everything but its result type keeps its
verdict if the result has the same leaves, or the same but for how unions are put together; and
nothing the check says depends on how the unions of the payload's type are put together. -/
theorem checkSignature_decides (dispatcher : Dispatcher) (scope : Scope) (f : FunctionDecl) :
    (dispatcher.checkSignature scope f = .ok () ↔
      ∃ context payload, f.Takes context payload ∧ dispatcher.ContextType context.type ∧
        payload.type.Known ∧ f.declaredReturn.Replies) ∧
    ((∀ context payload, ¬f.Takes context payload) →
      dispatcher.checkSignature scope f =
        .error (.parameterShape (f.params.countP (·.default.isNone))
          (f.params.countP (·.default.isSome)) f.restParam.isSome)) ∧
    (∀ context payload, f.Takes context payload →
      (¬dispatcher.ContextType context.type →
        dispatcher.checkSignature scope f =
          .error (.contextType dispatcher.contextName (scope.renderType context.type))) ∧
      (dispatcher.ContextType context.type → ¬payload.type.Known →
        dispatcher.checkSignature scope f = .error (.unresolvedPayload payload.name)) ∧
      (dispatcher.ContextType context.type → payload.type.Known → ¬f.declaredReturn.Replies →
        dispatcher.checkSignature scope f =
          .error (.returnType (scope.renderType f.declaredReturn)))) ∧
    (∀ returnType : Option Ty,
      (∀ leaf, Ty.Leaf leaf (returnType.getD (.builtin .nil)) ↔ Ty.Leaf leaf f.declaredReturn) →
        dispatcher.verdict scope { f with returnType := returnType } =
          dispatcher.verdict scope f) ∧
    (∀ type, Ty.Regrouped f.declaredReturn type →
      dispatcher.verdict scope { f with returnType := some type } = dispatcher.verdict scope f) ∧
    (∀ payload type, f.params[1]? = some payload → Ty.Regrouped payload.type type →
      dispatcher.checkSignature scope (f.withPayload type) =
        dispatcher.checkSignature scope f) := by
  refine ⟨Dispatcher.checkSignature_eq_ok_iff scope f, Dispatcher.checkSignature_of_not_takes scope,
    ?rejects, ?leaves, ?result, ?payload⟩
  case rejects =>
    intro context payload htakes
    rw [Dispatcher.checkSignature_of_takes scope htakes]
    refine ⟨?_, ?_, ?_⟩
    · intro hcontext
      rw [if_neg (mt Dispatcher.isContext_iff.1 hcontext)]
    · intro hcontext hpayload
      rw [if_pos (Dispatcher.isContext_iff.2 hcontext),
        if_neg (mt Ty.isResolved_iff_known.1 hpayload)]
    · intro hcontext hpayload hresult
      rw [if_pos (Dispatcher.isContext_iff.2 hcontext), if_pos (Ty.isResolved_iff_known.2 hpayload),
        if_neg (mt Ty.all_isReply_iff.1 hresult)]
  case leaves =>
    intro returnType hleaves
    refine Dispatcher.verdict_of_returnType scope ?_
    rw [Bool.eq_iff_iff, Ty.all_isReply_iff, Ty.all_isReply_iff]
    exact forall_congr' fun leaf => imp_congr_left (hleaves leaf)
  case result =>
    intro type hregrouped
    exact Dispatcher.verdict_of_returnType scope
      (hregrouped.all_members_eq (fun _ => rfl) fun _ => rfl).symm
  case payload =>
    intro payload type hpayload hregrouped
    exact Dispatcher.checkSignature_withPayload scope hpayload hregrouped.isResolved_eq.symm

/-- A handler with unions in unions, one of them without members. -/
def nestedHandler : FunctionDecl where
  name := "place"
  params :=
    [⟨"ctx", .named ⟨"ballerinax", "awslambda", "2.1.0"⟩ "Context", none⟩,
      ⟨"order", .map (.union [.builtin .string, .array (.union [.record "record \x7b\x7d"])]),
        none⟩]
  returnType := some (.union [.union [.builtin .json, .union []], .builtin .error])

theorem checkSignature_decides_nested :
    Dispatcher.checkSignature {} { package := ⟨"acme", "shop", "1.0.0"⟩ } nestedHandler = .ok () ∧
      Dispatcher.verdict {} { package := ⟨"acme", "shop", "1.0.0"⟩ }
        { nestedHandler with returnType := some (.union [.builtin .error, .builtin .json]) } =
          .ok () := by
  obtain ⟨haccepts, -, -, hleaves, -⟩ :=
    checkSignature_decides {} { package := ⟨"acme", "shop", "1.0.0"⟩ } nestedHandler
  have hok := haccepts.2 ⟨_, _, ⟨rfl, rfl, rfl, rfl⟩, ⟨_, rfl, rfl, rfl⟩,
    Ty.isResolved_iff_known.1 rfl, Ty.all_isReply_iff.1 rfl⟩
  refine ⟨hok, (hleaves _ fun leaf => ?_).trans ?_⟩
  · have hnested : nestedHandler.declaredReturn =
        .union [.union [.builtin .json, .union []], .builtin .error] := rfl
    simp [hnested, Ty.leaf_union_iff, or_comm]
  · rw [Dispatcher.verdict, hok]
    rfl

end LambdaDeploy
