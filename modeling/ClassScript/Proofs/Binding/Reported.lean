import ClassScript.Proofs.Binding.Agreement

set_option autoImplicit false

/-!
# What the binding walk reports

The walk comes to the occasions of a program one after the other.  It reports just those that break
a rule, each once and at its token, and records the addresses of just those that refer to a binding.
That a fault was reported changes neither the open scopes nor the position, so what follows it is
judged as if nothing had happened.
-/

namespace ClassScript

open Resolution

/-! ## Faults of occasions -/

/-- One diagnostic for each occasion that breaks a rule, in their order. -/
inductive Diagnosed : List Occasion → List Diagnostic → Prop where
  | nil : Diagnosed [] []
  | legal {o : Occasion} {os : List Occasion} {ds : List Diagnostic}
      (legal : ∀ fault, ¬o.Breaks fault) (rest : Diagnosed os ds) : Diagnosed (o :: os) ds
  | illegal {o : Occasion} {os : List Occasion} {ds : List Diagnostic} {fault : BindingFault}
      (broken : o.Breaks fault) (rest : Diagnosed os ds) :
      Diagnosed (o :: os) (.binding o.token fault :: ds)

namespace Diagnosed

variable {os os' : List Occasion} {ds ds' : List Diagnostic}

theorem append (h : Diagnosed os ds) (k : Diagnosed os' ds') :
    Diagnosed (os ++ os') (ds ++ ds') := by
  induction h with
  | nil => exact k
  | legal ok _ ih => exact .legal ok ih
  | illegal broken _ ih => exact .illegal broken ih

theorem eq_nil_iff (h : Diagnosed os ds) : ds = [] ↔ ∀ o ∈ os, ∀ fault, ¬o.Breaks fault := by
  induction h with
  | nil => simp
  | legal ok _ ih => simp [ok, ih]
  | @illegal o os ds fault broken _ _ =>
    constructor
    · intro absent
      cases absent
    · intro ok
      exact absurd broken (ok o List.mem_cons_self fault)

/-- The occasions determine the diagnostics. -/
theorem unique (h : Diagnosed os ds) (k : Diagnosed os ds') : ds = ds' := by
  induction h generalizing ds' with
  | nil =>
    cases k
    rfl
  | legal ok _ ih =>
    cases k with
    | legal _ rest => exact ih rest
    | illegal broken _ => exact absurd broken (ok _)
  | illegal broken _ ih =>
    cases k with
    | legal ok _ => exact absurd broken (ok _)
    | illegal broken' rest => rw [broken.unique broken', ih rest]

end Diagnosed

/-! ## From one state of the walk to another -/

/-- The table with the address of an occasion, if it has one. -/
def Occasion.note (distances : Distances) (o : Occasion) : Distances :=
  match o.reference?, o.address? with
  | some reference, some distance => distances.insert reference.id distance
  | _, _ => distances

/-- The walk comes to the given occasions on the way from one state to the other. -/
structure Walks (os : List Occasion) (r r' : Resolution) : Prop where
  reported : ∃ ds, r'.faults.toList = r.faults.toList ++ ds ∧ Diagnosed os ds
  recorded : r'.distances = os.foldl Occasion.note r.distances

namespace Walks

variable {os os' : List Occasion} {r r₁ r' : Resolution} {around : List LexicalScope}
  {initializes : Option String}

/-- Steps without an occasion. -/
theorem quiet (faults : r'.faults = r.faults) (distances : r'.distances = r.distances) :
    Walks [] r r' :=
  ⟨⟨[], by simp [faults], .nil⟩, distances⟩

theorem refl (r : Resolution) : Walks [] r r := quiet rfl rfl

theorem trans (h : Walks os r r₁) (k : Walks os' r₁ r') : Walks (os ++ os') r r' := by
  obtain ⟨ds, first, diagnosed⟩ := h.reported
  obtain ⟨ds', second, diagnosed'⟩ := k.reported
  refine ⟨⟨ds ++ ds', ?_, diagnosed.append diagnosed'⟩, ?_⟩
  · rw [second, first, List.append_assoc]
  · rw [k.recorded, h.recorded, List.foldl_append]

/-- Something without an occasion comes first. -/
theorem after_quiet (h : Walks [] r r₁) (k : Walks os r₁ r') : Walks os r r' :=
  h.trans k

/-- Something without an occasion comes last. -/
theorem then_quiet (h : Walks os r r₁) (k : Walks [] r₁ r') : Walks os r r' := by
  have whole := h.trans k
  rwa [List.append_nil] at whole

theorem enter (frame : Frame) : Walks [] r (r.enter frame) := quiet rfl rfl

theorem leave : Walks [] r r.leave := quiet rfl rfl

theorem define (t : Token) : Walks [] r (r.define t) :=
  quiet (faults_put ..) (distances_define ..)

/-- An occasion that breaks no rule. -/
theorem legal {o : Occasion} (ok : ∀ fault, ¬o.Breaks fault) (faults : r'.faults = r.faults)
    (distances : r'.distances = o.note r.distances) : Walks [o] r r' :=
  ⟨⟨[], by simp [faults], .legal ok .nil⟩, distances⟩

/-- An occasion that breaks a rule. -/
theorem illegal {o : Occasion} {fault : BindingFault} (broken : o.Breaks fault)
    (faults : r'.faults = r.faults.push (.binding o.token fault))
    (distances : r'.distances = o.note r.distances) : Walks [o] r r' :=
  ⟨⟨[_], by simp [faults], .illegal broken .nil⟩, distances⟩

end Walks

namespace Walks

variable {r r' : Resolution} {around : List LexicalScope} {initializes : Option String}

/-- An occasion that breaks a rule just if a condition holds. -/
theorem judged {o : Occasion} {fault : BindingFault} (condition : Bool)
    (broken : condition = true → o.Breaks fault)
    (ok : condition = false → ∀ other, ¬o.Breaks other)
    (faults : r'.faults = (r.reportIf condition o.token fault).faults)
    (distances : r'.distances = o.note r.distances) : Walks [o] r r' := by
  cases condition with
  | true => exact illegal (broken rfl) faults distances
  | false => exact legal (ok rfl) faults distances

/-- Recording a reference notes its address. -/
theorem note_record {o : Occasion} (reference : Reference)
    (refers : o.reference? = some reference)
    (same : distance? reference.token.lexeme r.scopes = o.address?) :
    (r.record reference.id reference.token).distances = o.note r.distances := by
  unfold Resolution.record Occasion.note
  rw [same, refers]
  cases o.address? <;> rfl

theorem declare (h : Matches r.scopes around) (t : Token) :
    Walks [⟨.declares t, around, none⟩] r (r.declare t) := by
  by_cases twice : (stageIn r.scopes t.lexeme).isSome
  · obtain ⟨innermost, outer, rfl, mem⟩ := (h.stageIn_isSome t.lexeme).1 twice
    have reported : r.declare t = r.report t .alreadyDeclared := if_pos twice
    rw [reported]
    exact illegal (.redeclared mem) rfl rfl
  · have put : r.declare t = r.put t.lexeme .declared := if_neg twice
    refine legal (fun fault broken => ?_) (by rw [put, faults_put]) (distances_declare ..)
    cases broken with
    | redeclared mem => exact twice ((h.stageIn_isSome t.lexeme).2 ⟨_, _, rfl, mem⟩)

theorem bind (h : Matches r.scopes around) (t : Token) :
    Walks [⟨.declares t, around, none⟩] r ((r.declare t).define t) :=
  (declare h t).then_quiet (define t)

theorem declareAll (ts : List Token) (h : Matches r.scopes around) :
    Walks (parameterOccasions ts around) r (Resolution.declareAll ts r) := by
  induction ts generalizing r around with
  | nil => exact refl r
  | cons t ts ih =>
    have next : Matches ((r.declare t).define t).scopes (declareIn [t.lexeme] around) := by
      rw [scopes_bind]
      exact h.bind t.lexeme
    exact (bind h t).trans (ih next)

theorem reads (sees : Sees initializes r.scopes around) (id : Nat) (t : Token) :
    Walks [⟨.reads id t, around, initializes⟩] r
      ((r.reportIf (r.stage? t.lexeme = some .declared) t .readInOwnInitializer).record id t) := by
  have own := sees.initializing t.lexeme
  refine judged (decide (r.stage? t.lexeme = some .declared)) (fun holds => ?_)
    (fun fails fault broken => ?_) (faults_record ..) ?_
  · obtain rfl := own.1 (of_decide_eq_true holds)
    exact .ownInitializer
  · cases broken with
    | ownInitializer => exact of_decide_eq_false fails (own.2 rfl)
  · rw [← distances_reportIf r t (decide (r.stage? t.lexeme = some .declared)) .readInOwnInitializer]
    refine note_record ⟨.name, id, t⟩ rfl ?_
    rw [scopes_reportIf]
    exact sees.address t.lexeme

theorem assigns (sees : Sees initializes r.scopes around) (id : Nat) (t : Token) :
    Walks [⟨.assigns id t, around, initializes⟩] r (r.record id t) := by
  refine legal (fun fault broken => nomatch broken) (faults_record ..) ?_
  exact note_record ⟨.assign, id, t⟩ rfl (sees.address t.lexeme)

/-- A `return` is judged by the innermost function around it. -/
theorem returns {position : Position} (here : position = positionIn around) (keyword : Token)
    (valued : Bool) :
    Walks [⟨.returns keyword valued, around, none⟩] r
      ((r.reportIf (position.inFunction = .outside) keyword .returnOutsideFunction).reportIf
        (valued && position.inFunction = .initializer) keyword .valueFromInitializer) := by
  have inFunction : position.inFunction = functionPosition (around.map LexicalScope.site) := by
    rw [here]
    rfl
  have isOutside := functionPosition_outside (around.map LexicalScope.site)
  have isInitializer := functionPosition_initializer (around.map LexicalScope.site)
  rw [← inFunction] at isOutside isInitializer
  by_cases outside : position.inFunction = .outside
  · have quiet : (valued && decide (position.inFunction = .initializer)) = false := by
      simp [outside]
    rw [decide_eq_true outside, quiet]
    exact illegal (.returnOutside (isOutside.1 outside)) rfl rfl
  · rw [decide_eq_false outside]
    refine judged _ (fun holds => ?_) (fun fails fault broken => ?_) rfl (distances_reportIf ..)
    · obtain ⟨rfl, initializer⟩ := Bool.and_eq_true_iff.1 holds
      obtain ⟨f, initializes, inside⟩ := isInitializer.1 (of_decide_eq_true initializer)
      exact .returnedValue initializes inside
    · cases broken with
      | returnOutside absent => exact outside (isOutside.2 absent)
      | returnedValue initializes inside =>
        simp [isInitializer.2 ⟨_, initializes, inside⟩] at fails

/-- `this` is judged by whether a class is around it. -/
theorem this {position : Position} (here : position = positionIn around)
    (sees : Sees initializes r.scopes around) (id : Nat) (keyword : Token) :
    Walks [⟨.this id keyword, around, initializes⟩] r ((Expr.this id keyword).resolve position r) := by
  have inClass : position.inClass = classPosition (around.map LexicalScope.site) := by
    rw [here]
    rfl
  rw [Expr.resolve, inClass, classPosition]
  cases h : classAround? (around.map LexicalScope.site) with
  | none =>
    refine illegal (.thisOutside h) rfl ?_
    simp [Occasion.note, Occasion.reference?, Occasion.address?, Occasion.sites, h, Resolution.report]
  | some hasSuperclass =>
    have recorded : Walks [⟨.this id keyword, around, initializes⟩] r (r.record id keyword) := by
      refine legal (fun fault broken => ?_) (faults_record ..)
        (note_record ⟨.this, id, keyword⟩ rfl ?_)
      · cases broken with
        | thisOutside outside => exact absurd (h.symm.trans outside) nofun
      · simpa [Occasion.address?, Occasion.sites, h] using sees.address keyword.lexeme
    cases hasSuperclass <;> exact recorded

/-- `super` is judged by the innermost class around it, and recorded however it is judged. -/
theorem super {position : Position} (here : position = positionIn around)
    (sees : Sees initializes r.scopes around) (id : Nat) (keyword method : Token) :
    Walks [⟨.super id keyword, around, initializes⟩] r
      ((Expr.super id keyword method).resolve position r) := by
  have inClass : position.inClass = classPosition (around.map LexicalScope.site) := by
    rw [here]
    rfl
  have noted : ∀ checked : Resolution, checked.scopes = r.scopes →
      checked.distances = r.distances → (checked.record id keyword).distances =
        Occasion.note r.distances ⟨.super id keyword, around, initializes⟩ := by
    intro checked scopes distances
    rw [← distances]
    refine note_record ⟨.super, id, keyword⟩ rfl ?_
    rw [scopes]
    exact sees.address keyword.lexeme
  rw [Expr.resolve, inClass, classPosition]
  cases h : classAround? (around.map LexicalScope.site) with
  | none => exact illegal (.superOutside h) (faults_record ..) (noted _ rfl rfl)
  | some hasSuperclass =>
    cases hasSuperclass with
    | false => exact illegal (.superWithout h) (faults_record ..) (noted _ rfl rfl)
    | true =>
      refine legal (fun fault broken => ?_) (faults_record ..) (noted r rfl rfl)
      cases broken with
      | superOutside outside => exact absurd (h.symm.trans outside) nofun
      | superWithout without => exact absurd (h.symm.trans without) (by simp)

theorem checkSelfInheritance (name : Token) (e : Expr) :
    Walks (inheritanceOccasions around name e) r (Resolution.checkSelfInheritance name e r) := by
  unfold inheritanceOccasions Resolution.checkSelfInheritance
  cases e.nameToken? with
  | none => exact refl r
  | some t =>
    refine judged (decide (t.lexeme = name.lexeme))
      (fun holds => .selfInherited (of_decide_eq_true holds)) (fun fails fault broken => ?_) rfl
      (distances_reportIf ..)
    cases broken with
    | selfInherited same => exact of_decide_eq_false fails same

end Walks

/-! ## The walk over a tree -/

mutual

theorem Expr.walks {position : Position} {around : List LexicalScope}
    {initializes : Option String} (e : Expr) {r : Resolution} (here : position = positionIn around)
    (sees : Sees initializes r.scopes around) :
    Walks (e.occasions around initializes) r (e.resolve position r) := by
  match e with
  | .constant _ => exact .refl r
  | .unary _ operand => exact Expr.walks operand here sees
  | .binary left _ right | .logical left _ right =>
    have same := Expr.scopes_resolve position left r
    exact (Expr.walks left here sees).trans (Expr.walks right here (same ▸ sees))
  | .grouping inner => exact Expr.walks inner here sees
  | .name id token => exact .reads sees id token
  | .assign id target value =>
    have same := Expr.scopes_resolve position value r
    exact (Expr.walks value here sees).trans (.assigns (same ▸ sees) id target)
  | .call callee _ arguments =>
    have same := Expr.scopes_resolve position callee r
    exact (Expr.walks callee here sees).trans (Expr.walksAll arguments here (same ▸ sees))
  | .get object _ => exact Expr.walks object here sees
  | .set object _ value =>
    have same := Expr.scopes_resolve position value r
    exact (Expr.walks value here sees).trans (Expr.walks object here (same ▸ sees))
  | .this id keyword => exact .this here sees id keyword
  | .super id keyword method => exact .super here sees id keyword method

theorem Expr.walksAll {position : Position} {around : List LexicalScope}
    {initializes : Option String} (es : List Expr) {r : Resolution}
    (here : position = positionIn around) (sees : Sees initializes r.scopes around) :
    Walks (Expr.occasionsAll around initializes es) r (Expr.resolveAll position es r) := by
  match es with
  | [] => exact .refl r
  | e :: es =>
    have same := Expr.scopes_resolve position e r
    exact (Expr.walks e here sees).trans (Expr.walksAll es here (same ▸ sees))

end

theorem Expr.walksOption {position : Position} {around : List LexicalScope}
    {initializes : Option String} (e : Option Expr) {r : Resolution}
    (here : position = positionIn around) (sees : Sees initializes r.scopes around) :
    Walks (Expr.occasionsOption around initializes e) r (Expr.resolveOption position e r) := by
  cases e with
  | none => exact .refl r
  | some e => exact Expr.walks e here sees

mutual

theorem Stmt.walks {position : Position} {around : List LexicalScope} (s : Stmt) {r : Resolution}
    (here : position = positionIn around) (plain : Plain (around.map LexicalScope.site))
    (h : Matches r.scopes around) : Walks (s.occasions around) r (s.resolve position r) := by
  match s with
  | .expression value | .print value => exact Expr.walks value here h.sees
  | .varDecl name initializer =>
    have sees : Sees (newLocal? name.lexeme around) (r.declare name).scopes
        (declareIn [name.lexeme] around) := by
      rw [scopes_declare]
      exact h.declare name.lexeme
    have value := Expr.walksOption initializer (here.trans (positionIn_declareIn ..).symm) sees
    exact ((Walks.declare h name).trans value).then_quiet (.define name)
  | .block body =>
    have opened : Matches (r.enter []).scopes ({ site := .block body, names := [] } :: around) :=
      h.enter (.block body)
    have within := Stmt.walksAll body (here.trans (positionIn_block body around).symm) trivial opened
    exact ((Walks.enter []).after_quiet within).then_quiet .leave
  | .ifThen condition thenBranch =>
    have same := Expr.scopes_resolve position condition r
    exact (Expr.walks condition here h.sees).trans
      (Stmt.walks thenBranch here plain (same ▸ h))
  | .ifElse condition thenBranch elseBranch =>
    have same := Expr.scopes_resolve position condition r
    have first := Stmt.walks thenBranch here plain (r := condition.resolve position r) (same ▸ h)
    have after : Matches (thenBranch.resolve position (condition.resolve position r)).scopes
        (declareIn thenBranch.declared around) := by
      rw [Stmt.scopes_resolve, same]
      exact h.after
    have second := Stmt.walks elseBranch (here.trans (positionIn_declareIn ..).symm)
      (by rwa [sites_declareIn]) after
    exact ((Expr.walks condition here h.sees).trans first).trans second
  | .whileLoop condition body =>
    have same := Expr.scopes_resolve position condition r
    exact (Expr.walks condition here h.sees).trans (Stmt.walks body here plain (same ▸ h))
  | .funDecl declaration =>
    have bound : Matches ((r.declare declaration.name).define declaration.name).scopes
        (declareIn [declaration.name.lexeme] around) := by
      rw [scopes_bind]
      exact h.bind declaration.name.lexeme
    refine (Walks.bind h declaration.name).trans (FunctionDecl.walks declaration ?_ bound)
    rw [sites_declareIn, positionAt_function plain, here]
    rfl
  | .returnStmt keyword none => exact Walks.returns here keyword false
  | .returnStmt keyword (some e) =>
    refine (Walks.returns here keyword true).trans (Expr.walks e here ?_)
    rw [scopes_reportIf, scopes_reportIf]
    exact h.sees
  | .classDecl name none methods =>
    have bound : Matches ((r.declare name).define name).scopes (declareIn [name.lexeme] around) := by
      rw [scopes_bind]
      exact h.bind name.lexeme
    have within := FunctionDecl.walksAll { position with inClass := .rootClass }
      (aroundMethods false methods (declareIn [name.lexeme] around)) methods
      (r := ((r.declare name).define name).enter receiverFrame)
      (fun f => (positionAt_rootMethod (by rwa [sites_declareIn]) methods f).symm)
      (bound.receiver methods)
    exact (Walks.bind h name).trans (((Walks.enter receiverFrame).after_quiet within).then_quiet .leave)
  | .classDecl name (some e) methods =>
    have bound : Matches ((r.declare name).define name).scopes (declareIn [name.lexeme] around) := by
      rw [scopes_bind]
      exact h.bind name.lexeme
    have checked : Walks (inheritanceOccasions (declareIn [name.lexeme] around) name e)
        ((r.declare name).define name) _ := .checkSelfInheritance name e
    have checkedScopes := scopes_checkSelfInheritance ((r.declare name).define name) name e
    have named := Expr.walks e (here.trans (positionIn_declareIn ..).symm)
      (checkedScopes ▸ bound).sees
    have outside : Matches (e.resolve position
        (Resolution.checkSelfInheritance name e ((r.declare name).define name))).scopes
        (declareIn [name.lexeme] around) := by
      rw [Expr.scopes_resolve, checkedScopes]
      exact bound
    have within := FunctionDecl.walksAll { position with inClass := .subclass }
      (aroundMethods true methods (declareIn [name.lexeme] around)) methods
      (r := ((e.resolve position (Resolution.checkSelfInheritance name e
        ((r.declare name).define name))).enter superclassFrame).enter receiverFrame)
      (fun f => (positionAt_method _ methods f).symm) (outside.superclass methods)
    have opened := (Walks.enter superclassFrame).after_quiet
      ((Walks.enter receiverFrame).after_quiet within)
    exact (Walks.bind h name).trans
      ((checked.trans named).trans ((opened.then_quiet .leave).then_quiet .leave))

theorem Stmt.walksAll {position : Position} {around : List LexicalScope} (ss : List Stmt)
    {r : Resolution} (here : position = positionIn around)
    (plain : Plain (around.map LexicalScope.site)) (h : Matches r.scopes around) :
    Walks (Stmt.occasionsAll around ss) r (Stmt.resolveAll position ss r) := by
  match ss with
  | [] => exact .refl r
  | s :: ss =>
    have after : Matches (s.resolve position r).scopes (declareIn s.declared around) := by
      rw [Stmt.scopes_resolve]
      exact h.after
    exact (Stmt.walks s here plain h).trans
      (Stmt.walksAll ss (here.trans (positionIn_declareIn ..).symm) (by rwa [sites_declareIn]) after)

theorem FunctionDecl.walks {position : Position} {around : List LexicalScope} (f : FunctionDecl)
    {r : Resolution} (here : position = positionAt (.body f :: around.map LexicalScope.site))
    (h : Matches r.scopes around) : Walks (f.occasions around) r (f.resolve position r) := by
  match f with
  | ⟨name, parameters, body⟩ =>
    have opened : Matches (r.enter []).scopes
        ({ site := .body ⟨name, parameters, body⟩, names := [] } :: around) :=
      h.enter (.body ⟨name, parameters, body⟩)
    have bound : Matches (Resolution.declareAll parameters (r.enter [])).scopes
        (declareIn (parameters.map Token.lexeme)
          ({ site := .body ⟨name, parameters, body⟩, names := [] } :: around)) := by
      rw [scopes_declareAll]
      exact opened.bindAll _
    have within := Stmt.walksAll body
      (here.trans (positionIn_declareIn (parameters.map Token.lexeme)
        ({ site := .body ⟨name, parameters, body⟩, names := [] } :: around)).symm) trivial bound
    exact ((Walks.enter []).after_quiet ((Walks.declareAll parameters opened).trans within)).then_quiet
      .leave

theorem FunctionDecl.walksAll (position : Position) (around : List LexicalScope)
    (fs : List FunctionDecl) {r : Resolution}
    (here : ∀ f : FunctionDecl,
      { position with inFunction := if f.isInitializer then .initializer else .method } =
        positionAt (.body f :: around.map LexicalScope.site))
    (h : Matches r.scopes around) :
    Walks (FunctionDecl.occasionsAll around fs) r (FunctionDecl.resolveAll position fs r) := by
  match fs with
  | [] => exact .refl r
  | f :: fs =>
    have same := FunctionDecl.scopes_resolve
      { position with inFunction := if f.isInitializer then .initializer else .method } f r
    exact (FunctionDecl.walks f (here f) h).trans
      (FunctionDecl.walksAll position around fs here (same ▸ h))

end

/-! ## Programs -/

theorem resolve_walks (program : List Stmt) (distances : Distances) :
    Walks (occasions program) { scopes := [], distances, faults := #[] }
      (Stmt.resolveAll .top program { scopes := [], distances, faults := #[] }) :=
  Stmt.walksAll program rfl trivial .nil

/-- The faults of a program are the occasions that break a rule, and the program is accepted just if
there are none. -/
theorem resolve_reports (program : List Stmt) (distances : Distances) :
    Diagnosed (occasions program) (resolve program distances).2 ∧
    ((resolve program distances).2 = [] ↔ ∀ o ∈ occasions program, ∀ fault, ¬o.Breaks fault) := by
  obtain ⟨ds, faults, diagnosed⟩ := (resolve_walks program distances).reported
  have reported : (resolve program distances).2 = ds := by simpa [resolve] using faults
  rw [reported]
  exact ⟨diagnosed, diagnosed.eq_nil_iff⟩

end ClassScript
