import ClassScript.Proofs.Binding.Visits

set_option autoImplicit false

/-!
# What the binding walk records

The walk follows the visits of the tree: at each of them it records the distance at which the scopes
of the visit have the name, and it touches no other entry of its table.  If it reports nothing, then
moreover no name is read inside its own initializer, `this` is met within a class, and `super` where
the innermost class around it has a superclass.
-/

namespace ClassScript

open Resolution

/-! ## The scopes of the walk -/

namespace Resolution

variable (r : Resolution) (t : Token)

@[simp] theorem scopes_reportIf (condition : Bool) (fault : BindingFault) :
    (r.reportIf condition t fault).scopes = r.scopes := by
  unfold reportIf
  split <;> rfl

@[simp] theorem distances_reportIf (condition : Bool) (fault : BindingFault) :
    (r.reportIf condition t fault).distances = r.distances := by
  unfold reportIf
  split <;> rfl

@[simp] theorem scopes_put (name : String) (stage : Stage) :
    (r.put name stage).scopes = putName name stage r.scopes := by
  unfold put putName
  cases h : r.scopes <;> simp [h]

@[simp] theorem distances_put (name : String) (stage : Stage) :
    (r.put name stage).distances = r.distances := by
  unfold put
  cases h : r.scopes <;> rfl

@[simp] theorem faults_put (name : String) (stage : Stage) :
    (r.put name stage).faults = r.faults := by
  unfold put
  cases h : r.scopes <;> rfl

@[simp] theorem scopes_declare : (r.declare t).scopes = declareName t.lexeme r.scopes := by
  unfold declare declareName
  change (if (stageIn r.scopes t.lexeme).isSome = true then _ else _ : Resolution).scopes = _
  split
  · rfl
  · exact scopes_put ..

@[simp] theorem distances_declare : (r.declare t).distances = r.distances := by
  unfold declare
  split
  · rfl
  · exact distances_put ..

@[simp] theorem scopes_define :
    (r.define t).scopes = putName t.lexeme .defined r.scopes := by
  unfold define
  exact scopes_put ..

@[simp] theorem distances_define : (r.define t).distances = r.distances := by
  unfold define
  exact distances_put ..

theorem scopes_bind : ((r.declare t).define t).scopes = bindName t.lexeme r.scopes := by
  rw [scopes_define, scopes_declare, bindName]

@[simp] theorem scopes_record (id : Nat) : (r.record id t).scopes = r.scopes := by
  unfold record
  split <;> rfl

@[simp] theorem faults_record (id : Nat) : (r.record id t).faults = r.faults := by
  unfold record
  split <;> rfl

theorem scopes_declareAll (ts : List Token) :
    (declareAll ts r).scopes = bindNames (ts.map Token.lexeme) r.scopes := by
  induction ts generalizing r with
  | nil => rfl
  | cons t ts ih =>
    rw [declareAll, ih, scopes_bind]
    rfl

@[simp] theorem scopes_checkSelfInheritance (e : Expr) :
    (checkSelfInheritance t e r).scopes = r.scopes := by
  unfold checkSelfInheritance
  split
  · exact scopes_reportIf ..
  · rfl

@[simp] theorem distances_checkSelfInheritance (e : Expr) :
    (checkSelfInheritance t e r).distances = r.distances := by
  unfold checkSelfInheritance
  split
  · exact distances_reportIf ..
  · rfl

end Resolution

/-! ## The scopes outside the innermost one stay -/

theorem tail_putName (name : String) (stage : Stage) (scopes : List Frame) :
    (putName name stage scopes).tail = scopes.tail := by
  cases scopes <;> rfl

theorem tail_declareName (name : String) (scopes : List Frame) :
    (declareName name scopes).tail = scopes.tail := by
  unfold declareName
  split
  · rfl
  · exact tail_putName ..

theorem tail_bindName (name : String) (scopes : List Frame) :
    (bindName name scopes).tail = scopes.tail := by
  rw [bindName, tail_putName, tail_declareName]

theorem tail_bindNames (names : List String) (scopes : List Frame) :
    (bindNames names scopes).tail = scopes.tail := by
  induction names generalizing scopes with
  | nil => rfl
  | cons name names ih =>
    have first := tail_bindName name scopes
    exact (ih (bindName name scopes)).trans first

theorem Stmt.tail_after (s : Stmt) (scopes : List Frame) :
    (s.after scopes).tail = scopes.tail := by
  match s with
  | .varDecl .. | .funDecl .. | .classDecl .. => exact tail_bindName ..
  | .ifThen _ thenBranch => exact Stmt.tail_after thenBranch scopes
  | .ifElse _ thenBranch elseBranch =>
    have first := Stmt.tail_after thenBranch scopes
    exact (Stmt.tail_after elseBranch (thenBranch.after scopes)).trans first
  | .whileLoop _ body => exact Stmt.tail_after body scopes
  | .expression _ | .print _ | .block _ | .returnStmt .. => rfl

theorem Stmt.tail_afterAll (ss : List Stmt) (scopes : List Frame) :
    (Stmt.afterAll ss scopes).tail = scopes.tail := by
  induction ss generalizing scopes with
  | nil => rfl
  | cons s ss ih =>
    have first := Stmt.tail_after s scopes
    exact (ih (s.after scopes)).trans first

mutual

/-- Expressions declare nothing. -/
theorem Expr.scopes_resolve (position : Position) (e : Expr) (r : Resolution) :
    (e.resolve position r).scopes = r.scopes := by
  match e with
  | .constant _ => rfl
  | .unary _ operand => exact Expr.scopes_resolve position operand r
  | .binary left _ right | .logical left _ right =>
    exact (Expr.scopes_resolve position right _).trans (Expr.scopes_resolve position left r)
  | .grouping inner => exact Expr.scopes_resolve position inner r
  | .name id token => simp [Expr.resolve]
  | .assign id target value => simp [Expr.resolve, Expr.scopes_resolve position value r]
  | .call callee _ arguments =>
    exact (Expr.scopes_resolveAll position arguments _).trans
      (Expr.scopes_resolve position callee r)
  | .get object _ => exact Expr.scopes_resolve position object r
  | .set object _ value =>
    exact (Expr.scopes_resolve position object _).trans (Expr.scopes_resolve position value r)
  | .this id keyword =>
    rw [Expr.resolve]
    split
    · rfl
    · exact scopes_record ..
  | .super id keyword _ =>
    simp only [Expr.resolve, scopes_record]
    split <;> rfl

theorem Expr.scopes_resolveAll (position : Position) (es : List Expr) (r : Resolution) :
    (Expr.resolveAll position es r).scopes = r.scopes := by
  match es with
  | [] => rfl
  | e :: es =>
    exact (Expr.scopes_resolveAll position es _).trans (Expr.scopes_resolve position e r)

end

theorem Expr.scopes_resolveOption (position : Position) (e : Option Expr) (r : Resolution) :
    (Expr.resolveOption position e r).scopes = r.scopes := by
  cases e with
  | none => rfl
  | some e => exact Expr.scopes_resolve position e r

mutual

/-- The walk over a statement leaves the scopes that the tree says. -/
theorem Stmt.scopes_resolve (position : Position) (s : Stmt) (r : Resolution) :
    (s.resolve position r).scopes = s.after r.scopes := by
  match s with
  | .expression value | .print value => exact Expr.scopes_resolve position value r
  | .varDecl name initializer =>
    simp [Stmt.resolve, Stmt.after, bindName, Expr.scopes_resolveOption]
  | .block body =>
    change (Stmt.resolveAll position body (r.enter [])).scopes.tail = _
    rw [Stmt.scopes_resolveAll position body (r.enter []), Stmt.tail_afterAll]
    rfl
  | .ifThen condition thenBranch =>
    rw [Stmt.resolve, Stmt.scopes_resolve position thenBranch, Expr.scopes_resolve, Stmt.after]
  | .ifElse condition thenBranch elseBranch =>
    rw [Stmt.resolve, Stmt.scopes_resolve position elseBranch,
      Stmt.scopes_resolve position thenBranch, Expr.scopes_resolve, Stmt.after]
  | .whileLoop condition body =>
    rw [Stmt.resolve, Stmt.scopes_resolve position body, Expr.scopes_resolve, Stmt.after]
  | .funDecl declaration =>
    rw [Stmt.resolve, FunctionDecl.scopes_resolve _ declaration, scopes_bind, Stmt.after]
  | .returnStmt keyword none => exact scopes_reportIf ..
  | .returnStmt keyword (some e) => simp [Stmt.resolve, Expr.scopes_resolve, Stmt.after]
  | .classDecl name none methods =>
    change (FunctionDecl.resolveAll _ methods (enter _ receiverFrame)).scopes.tail = _
    rw [FunctionDecl.scopes_resolveAll _ methods]
    exact scopes_bind r name
  | .classDecl name (some e) methods =>
    change (FunctionDecl.resolveAll _ methods
      (enter (enter _ superclassFrame) receiverFrame)).scopes.tail.tail = _
    rw [FunctionDecl.scopes_resolveAll _ methods]
    change (Expr.resolve position e _).scopes = _
    rw [Expr.scopes_resolve, scopes_checkSelfInheritance]
    exact scopes_bind r name

theorem Stmt.scopes_resolveAll (position : Position) (ss : List Stmt) (r : Resolution) :
    (Stmt.resolveAll position ss r).scopes = Stmt.afterAll ss r.scopes := by
  match ss with
  | [] => rfl
  | s :: ss =>
    rw [Stmt.resolveAll, Stmt.scopes_resolveAll position ss, Stmt.scopes_resolve position s]
    rfl

theorem FunctionDecl.scopes_resolve (position : Position) (f : FunctionDecl) (r : Resolution) :
    (f.resolve position r).scopes = r.scopes := by
  match f with
  | ⟨_, parameters, body⟩ =>
    change (Stmt.resolveAll position body (declareAll parameters (r.enter []))).scopes.tail = _
    rw [Stmt.scopes_resolveAll position body, Stmt.tail_afterAll, scopes_declareAll,
      tail_bindNames]
    rfl

theorem FunctionDecl.scopes_resolveAll (position : Position) (fs : List FunctionDecl)
    (r : Resolution) : (FunctionDecl.resolveAll position fs r).scopes = r.scopes := by
  match fs with
  | [] => rfl
  | f :: fs =>
    rw [FunctionDecl.resolveAll, FunctionDecl.scopes_resolveAll position fs,
      FunctionDecl.scopes_resolve _ f]

end

/-! ## Entries and faults -/

/-- What holds at a visit of a program without faults. -/
def Visit.Legal (v : Visit) : Prop :=
  match v.reference.kind with
  | .name => stageIn v.scopes v.name ≠ some .declared
  | .assign => True
  | .this => ∃ d, distance? "this" v.scopes = some d
  | .super => ∃ d, distance? "this" v.scopes = some d ∧ distance? "super" v.scopes = some (d + 1)

/-- On the way from one state of the walk to the other, just the given visits were made. -/
structure Settles (vs : List Visit) (r r' : Resolution) : Prop where
  reported : ∃ ds, r'.faults.toList = r.faults.toList ++ ds
  others : ∀ id, (∀ v ∈ vs, v.id ≠ id) → r'.distances.get? id = r.distances.get? id
  settled : r'.faults = r.faults → ∀ v ∈ vs, v.Legal ∧
    r'.distances.get? v.id = (distance? v.name v.scopes).or (r.distances.get? v.id)

namespace Settles

variable {vs us : List Visit} {r r₁ r' : Resolution}

/-- Steps that make no visit. -/
theorem quiet (reported : ∃ ds, r'.faults.toList = r.faults.toList ++ ds)
    (same : r'.distances = r.distances) : Settles [] r r' :=
  ⟨reported, fun _ _ => by rw [same], fun _ v hv => absurd hv List.not_mem_nil⟩

theorem refl (r : Resolution) : Settles [] r r :=
  quiet ⟨[], by simp⟩ rfl

/-- Visits that all have different numbers are settled one after the other. -/
theorem trans (h : Settles vs r r₁) (k : Settles us r₁ r')
    (apart : ((vs ++ us).map Visit.id).Nodup) : Settles (vs ++ us) r r' := by
  have disjoint : ∀ v ∈ vs, ∀ u ∈ us, u.id ≠ v.id := by
    rw [List.map_append] at apart
    intro v hv u hu same
    exact (List.nodup_append.1 apart).2.2 v.id (List.mem_map_of_mem hv) u.id
      (List.mem_map_of_mem hu) same.symm
  obtain ⟨ds, hds⟩ := h.reported
  obtain ⟨es, hes⟩ := k.reported
  refine ⟨⟨ds ++ es, by rw [hes, hds, List.append_assoc]⟩, fun id hid => ?_, fun silent v hv => ?_⟩
  · rw [k.others id fun u hu => hid u (List.mem_append_right _ hu),
      h.others id fun u hu => hid u (List.mem_append_left _ hu)]
  · have nothing : ds = [] ∧ es = [] := by
      rw [silent, hds] at hes
      simpa using hes.symm
    have first : r₁.faults = r.faults := by
      rw [← Array.toList_inj, hds, nothing.1, List.append_nil]
    rcases List.mem_append.1 hv with hv | hv
    · rw [k.others v.id (disjoint v hv)]
      exact h.settled first v hv
    · have old := h.others v.id fun u hu same => disjoint u hu v hv same.symm
      have settled := k.settled (silent.trans first.symm) v hv
      rwa [old] at settled

theorem congr (h : Settles vs r r') (same : ∀ v, v ∈ us ↔ v ∈ vs) : Settles us r r' :=
  ⟨h.reported, fun id hid => h.others id fun v hv => hid v ((same v).2 hv),
    fun silent v hv => h.settled silent v ((same v).1 hv)⟩

/-- Something that makes no visit comes first. -/
theorem after_quiet (h : Settles [] r r₁) (k : Settles us r₁ r')
    (apart : (us.map Visit.id).Nodup) : Settles us r r' :=
  h.trans k apart

/-- Something that makes no visit comes last. -/
theorem then_quiet (h : Settles vs r r₁) (k : Settles [] r₁ r')
    (apart : (vs.map Visit.id).Nodup) : Settles vs r r' := by
  have whole := h.trans k (by rwa [List.append_nil])
  rwa [List.append_nil] at whole

theorem enter (frame : Frame) : Settles [] r (r.enter frame) :=
  quiet ⟨[], by simp [Resolution.enter]⟩ rfl

theorem leave : Settles [] r r.leave :=
  quiet ⟨[], by simp [Resolution.leave]⟩ rfl

theorem reportIf (condition : Bool) (t : Token) (fault : BindingFault) :
    Settles [] r (r.reportIf condition t fault) := by
  refine quiet ?_ (distances_reportIf ..)
  unfold Resolution.reportIf
  split
  · exact ⟨[_], Array.toList_push⟩
  · exact ⟨[], by simp⟩

theorem declare (t : Token) : Settles [] r (r.declare t) := by
  refine quiet ?_ (distances_declare ..)
  unfold Resolution.declare
  split
  · exact ⟨[_], Array.toList_push⟩
  · exact ⟨[], by simp⟩

theorem define (t : Token) : Settles [] r (r.define t) := by
  refine quiet ⟨[], ?_⟩ (distances_define ..)
  unfold Resolution.define
  simp

theorem bind (t : Token) : Settles [] r ((r.declare t).define t) :=
  (declare t).trans (define t) (by simp)

theorem declareAll (ts : List Token) : Settles [] r (Resolution.declareAll ts r) := by
  induction ts generalizing r with
  | nil => exact refl r
  | cons t ts ih => exact (bind t).trans ih (by simp)

theorem checkSelfInheritance (t : Token) (e : Expr) :
    Settles [] r (Resolution.checkSelfInheritance t e r) := by
  unfold Resolution.checkSelfInheritance
  split
  · exact reportIf ..
  · exact refl r

/-- A visit that is legal unless something was reported. -/
theorem record {sites : List Site} {scopes : List Frame} (ref : Reference) (checked : Resolution)
    (reported : ∃ ds, checked.faults.toList = r.faults.toList ++ ds)
    (distances : checked.distances = r.distances) (here : checked.scopes = scopes)
    (legal : checked.faults = r.faults → Visit.Legal ⟨ref, sites, scopes⟩) :
    Settles [⟨ref, sites, scopes⟩] r (checked.record ref.id ref.token) := by
  refine ⟨by rw [faults_record]; exact reported, fun id hid => ?_, fun silent v hv => ?_⟩
  · have other : id ≠ ref.id := fun same => hid ⟨ref, sites, scopes⟩ (by simp) same.symm
    unfold Resolution.record
    split
    · rw [Distances.get?_insert_of_ne _ _ other, distances]
    · rw [distances]
  · obtain rfl := List.mem_singleton.1 hv
    rw [faults_record] at silent
    refine ⟨legal silent, ?_⟩
    unfold Resolution.record
    rw [here]
    change Distances.get? _ ref.id = (distance? ref.token.lexeme scopes).or _
    cases h : distance? ref.token.lexeme scopes with
    | some d => simp
    | none => simp [distances, Visit.id]

end Settles

/-! ## Places within classes -/

/-- The scopes have what the innermost class around a place promises. -/
def ClassPosition.Fits : ClassPosition → List Frame → Prop
  | .outside, _ => True
  | .rootClass, scopes => ∃ d, distance? "this" scopes = some d
  | .subclass, scopes =>
    ∃ d, distance? "this" scopes = some d ∧ distance? "super" scopes = some (d + 1)

theorem distance?_putName {name other : String} (h : other ≠ name) (stage : Stage)
    (scopes : List Frame) : distance? other (putName name stage scopes) = distance? other scopes := by
  cases scopes with
  | nil => rfl
  | cons frame outer =>
    have miss : ((name, stage) :: frame : Frame).lookup other = frame.lookup other := by
      simp [List.lookup_cons, beq_eq_false_iff_ne.2 h]
    simp only [putName, distance?, miss]

theorem distance?_declareName {name other : String} (h : other ≠ name) (scopes : List Frame) :
    distance? other (declareName name scopes) = distance? other scopes := by
  unfold declareName
  split
  · rfl
  · exact distance?_putName h ..

theorem distance?_bindName {name other : String} (h : other ≠ name) (scopes : List Frame) :
    distance? other (bindName name scopes) = distance? other scopes := by
  rw [bindName, distance?_putName h, distance?_declareName h]

theorem distance?_bindNames {names : List String} {other : String} (h : other ∉ names)
    (scopes : List Frame) : distance? other (bindNames names scopes) = distance? other scopes := by
  induction names generalizing scopes with
  | nil => rfl
  | cons name names ih =>
    simp only [List.mem_cons, not_or] at h
    have first := distance?_bindName h.1 scopes
    exact (ih h.2 (bindName name scopes)).trans first

theorem distance?_enter (name : String) (scopes : List Frame) :
    distance? name ([] :: scopes) = (distance? name scopes).map (· + 1) := rfl

/-- The scopes agree on where the receiver and the superclass are. -/
def SameReceiver (scopes scopes' : List Frame) : Prop :=
  distance? "this" scopes' = distance? "this" scopes ∧
  distance? "super" scopes' = distance? "super" scopes

theorem sameReceiver_declareName {name : String} (h : IsName name) (scopes : List Frame) :
    SameReceiver scopes (declareName name scopes) :=
  ⟨distance?_declareName h.1.symm scopes, distance?_declareName h.2.symm scopes⟩

theorem sameReceiver_bindName {name : String} (h : IsName name) (scopes : List Frame) :
    SameReceiver scopes (bindName name scopes) :=
  ⟨distance?_bindName h.1.symm scopes, distance?_bindName h.2.symm scopes⟩

theorem sameReceiver_bindNames {names : List String} (h : ∀ n ∈ names, IsName n)
    (scopes : List Frame) : SameReceiver scopes (bindNames names scopes) :=
  ⟨distance?_bindNames (fun mem => (h _ mem).1 rfl) scopes,
    distance?_bindNames (fun mem => (h _ mem).2 rfl) scopes⟩

/-- What a well-formed statement declares is neither the receiver nor the superclass. -/
theorem Stmt.sameReceiver_after {s : Stmt} (h : s.WellFormed) (scopes : List Frame) :
    SameReceiver scopes (s.after scopes) := by
  match s with
  | .varDecl name _ => exact sameReceiver_bindName h scopes
  | .funDecl declaration => exact sameReceiver_bindName h.name scopes
  | .classDecl name _ _ => exact sameReceiver_bindName h.1 scopes
  | .ifThen _ thenBranch => exact Stmt.sameReceiver_after h.1 scopes
  | .ifElse _ thenBranch elseBranch =>
    have first := Stmt.sameReceiver_after h.1.1 scopes
    have second := Stmt.sameReceiver_after h.2.1 (thenBranch.after scopes)
    exact ⟨second.1.trans first.1, second.2.trans first.2⟩
  | .whileLoop _ body => exact Stmt.sameReceiver_after h.1 scopes
  | .expression _ | .print _ | .block _ | .returnStmt .. => exact ⟨rfl, rfl⟩

namespace ClassPosition.Fits

variable {p : ClassPosition} {scopes scopes' : List Frame}

theorem congr (h : p.Fits scopes) (same : SameReceiver scopes scopes') : p.Fits scopes' := by
  cases p with
  | outside => trivial
  | rootClass =>
    obtain ⟨d, hd⟩ := h
    exact ⟨d, same.1.trans hd⟩
  | subclass =>
    obtain ⟨d, hthis, hsuper⟩ := h
    exact ⟨d, same.1.trans hthis, same.2.trans hsuper⟩

theorem enter (h : p.Fits scopes) : p.Fits ([] :: scopes) := by
  cases p with
  | outside => trivial
  | rootClass =>
    obtain ⟨d, hd⟩ := h
    exact ⟨d + 1, by rw [distance?_enter, hd]; rfl⟩
  | subclass =>
    obtain ⟨d, hthis, hsuper⟩ := h
    exact ⟨d + 1, by rw [distance?_enter, hthis]; rfl, by rw [distance?_enter, hsuper]; rfl⟩

theorem rootClass (scopes : List Frame) :
    ClassPosition.rootClass.Fits (receiverFrame :: scopes) :=
  ⟨0, rfl⟩

theorem subclass (scopes : List Frame) :
    ClassPosition.subclass.Fits (receiverFrame :: superclassFrame :: scopes) :=
  ⟨0, rfl, rfl⟩

end ClassPosition.Fits

/-! ## The walk settles its visits -/

theorem visitsAt_append (sites : List Site) (scopes : List Frame) (rs us : List Reference) :
    visitsAt sites scopes (rs ++ us) = visitsAt sites scopes rs ++ visitsAt sites scopes us :=
  List.map_append

/-- References with different numbers, whose words fit their kinds. -/
structure Apart (rs : List Reference) : Prop where
  ids : (rs.map Reference.id).Nodup
  spelled : ∀ r ∈ rs, r.Spelled

theorem Numbered.toApart {lo hi : Nat} {rs : List Reference} (h : Numbered lo hi rs) : Apart rs :=
  ⟨h.apart, h.spelled⟩

namespace Apart

variable {rs us : List Reference}

theorem left (h : Apart (rs ++ us)) : Apart rs := by
  have ids := h.ids
  rw [List.map_append] at ids
  exact ⟨ids.of_append_left, fun r hr => h.spelled r (List.mem_append_left _ hr)⟩

theorem right (h : Apart (rs ++ us)) : Apart us := by
  have ids := h.ids
  rw [List.map_append] at ids
  exact ⟨ids.of_append_right, fun r hr => h.spelled r (List.mem_append_right _ hr)⟩

theorem swap (h : Apart (rs ++ us)) : Apart (us ++ rs) := by
  have perm : (us ++ rs).Perm (rs ++ us) := List.perm_append_comm
  exact ⟨(perm.map _).nodup_iff.2 h.ids, fun r hr => h.spelled r (perm.mem_iff.1 hr)⟩

/-- The visits of references that are apart have different numbers. -/
theorem visits (h : Apart rs) {vs : List Visit} (same : vs.map Visit.reference = rs) :
    (vs.map Visit.id).Nodup := by
  have ids : vs.map Visit.id = rs.map Reference.id := by
    rw [← same, List.map_map]
    rfl
  rw [ids]
  exact h.ids

end Apart

/-- Two parts that are met in the same place, one after the other. -/
theorem Settles.pair {sites : List Site} {scopes : List Frame} {rs us : List Reference}
    {r r₁ r' : Resolution} (h : Settles (visitsAt sites scopes rs) r r₁)
    (k : Settles (visitsAt sites scopes us) r₁ r') (apart : Apart (rs ++ us)) :
    Settles (visitsAt sites scopes (rs ++ us)) r r' := by
  rw [visitsAt_append]
  refine h.trans k (apart.visits ?_)
  simp

/-! The walk starts each part of a tree in the scopes that the parts before it left, and those are the
scopes that the tree says.  So what is walked through is stated for any such scopes. -/

mutual

/-- An expression is met in one place, with all its references. -/
theorem Expr.settles (position : Position) (sites : List Site) (e : Expr) {r : Resolution}
    {scopes : List Frame} (here : r.scopes = scopes) (fits : position.inClass.Fits scopes)
    (apart : Apart e.references) :
    Settles (visitsAt sites scopes e.references) r (e.resolve position r) := by
  match e with
  | .constant _ => exact .refl r
  | .unary _ operand => exact Expr.settles position sites operand here fits apart
  | .binary left operator right | .logical left operator right =>
    have whole : Apart (left.references ++ right.references) := by simpa using apart
    have first := Expr.settles position sites left here fits whole.left
    have second := Expr.settles position sites right (r := left.resolve position r)
      ((Expr.scopes_resolve position left r).trans here) fits whole.right
    change Settles _ r (right.resolve position (left.resolve position r))
    simpa using first.pair second whole
  | .grouping inner => exact Expr.settles position sites inner here fits apart
  | .name id token =>
    refine Settles.record ⟨.name, id, token⟩ _ (Settles.reportIf ..).reported
      (distances_reportIf ..) ((scopes_reportIf ..).trans here) fun silent own => ?_
    -- a read of the own initializer would have been reported
    have found : r.stage? token.lexeme = some .declared := by
      rw [Resolution.stage?, here]
      exact own
    rw [found] at silent
    exact absurd (congrArg Array.size silent) (by simp [Resolution.reportIf, Resolution.report])
  | .assign id target value =>
    have whole : Apart ([⟨.assign, id, target⟩] ++ value.references) := apart
    have first := Expr.settles position sites value here fits whole.right
    have second : Settles (visitsAt sites scopes [⟨.assign, id, target⟩])
        (value.resolve position r) ((value.resolve position r).record id target) :=
      Settles.record ⟨.assign, id, target⟩ _ ⟨[], by simp⟩ rfl
        ((Expr.scopes_resolve position value r).trans here) fun _ => trivial
    refine (first.pair second whole.swap).congr fun v => ?_
    simp [mem_visitsAt, or_comm]
  | .call callee closing arguments =>
    have whole : Apart (callee.references ++ Expr.referencesAll arguments) := by
      simpa using apart
    have first := Expr.settles position sites callee here fits whole.left
    have second := Expr.settlesAll position sites arguments (r := callee.resolve position r)
      ((Expr.scopes_resolve position callee r).trans here) fits whole.right
    change Settles _ r (Expr.resolveAll position arguments (callee.resolve position r))
    simpa using first.pair second whole
  | .get object _ => exact Expr.settles position sites object here fits apart
  | .set object property value =>
    have whole : Apart (object.references ++ value.references) := by simpa using apart
    have first := Expr.settles position sites value here fits whole.right
    have second := Expr.settles position sites object (r := value.resolve position r)
      ((Expr.scopes_resolve position value r).trans here) fits whole.left
    refine (first.pair second whole.swap).congr fun v => ?_
    simp only [mem_visitsAt, Expr.references_set, List.mem_append, or_comm]
  | .this id keyword =>
    rw [Expr.resolve]
    split
    · refine ⟨⟨[_], Array.toList_push⟩, fun _ _ => rfl, fun silent => ?_⟩
      exact absurd (congrArg Array.size silent) (by simp [Resolution.report])
    · rename_i within
      refine Settles.record ⟨.this, id, keyword⟩ r ⟨[], by simp⟩ rfl here fun _ => ?_
      cases h : position.inClass with
      | outside => exact absurd h within
      | rootClass =>
        rw [h] at fits
        exact fits
      | subclass =>
        rw [h] at fits
        obtain ⟨d, hd, -⟩ := fits
        exact ⟨d, hd⟩
  | .super id keyword method =>
    simp only [Expr.resolve]
    cases h : position.inClass with
    | outside =>
      refine Settles.record ⟨.super, id, keyword⟩ _ ⟨[_], Array.toList_push⟩ rfl here ?_
      intro silent
      exact absurd (congrArg Array.size silent) (by simp [Resolution.report])
    | rootClass =>
      refine Settles.record ⟨.super, id, keyword⟩ _ ⟨[_], Array.toList_push⟩ rfl here ?_
      intro silent
      exact absurd (congrArg Array.size silent) (by simp [Resolution.report])
    | subclass =>
      refine Settles.record ⟨.super, id, keyword⟩ r ⟨[], by simp⟩ rfl here fun _ => ?_
      rw [h] at fits
      exact fits

theorem Expr.settlesAll (position : Position) (sites : List Site) (es : List Expr)
    {r : Resolution} {scopes : List Frame} (here : r.scopes = scopes)
    (fits : position.inClass.Fits scopes) (apart : Apart (Expr.referencesAll es)) :
    Settles (visitsAt sites scopes (Expr.referencesAll es)) r
      (Expr.resolveAll position es r) := by
  match es with
  | [] => exact .refl r
  | e :: es =>
    have whole : Apart (e.references ++ Expr.referencesAll es) := by simpa using apart
    have first := Expr.settles position sites e here fits whole.left
    have second := Expr.settlesAll position sites es (r := e.resolve position r)
      ((Expr.scopes_resolve position e r).trans here) fits whole.right
    change Settles _ r (Expr.resolveAll position es (e.resolve position r))
    simpa using first.pair second whole

end

theorem Expr.settlesOption (position : Position) (sites : List Site) (e : Option Expr)
    {r : Resolution} {scopes : List Frame} (here : r.scopes = scopes)
    (fits : position.inClass.Fits scopes) (apart : Apart (Expr.referencesOption e)) :
    Settles (visitsAt sites scopes (Expr.referencesOption e)) r
      (Expr.resolveOption position e r) := by
  cases e with
  | none => exact .refl r
  | some e => exact Expr.settles position sites e here fits apart

mutual

/-- A statement is met where the tree says. -/
theorem Stmt.settles (position : Position) (sites : List Site) (s : Stmt) {r : Resolution}
    {scopes : List Frame} (here : r.scopes = scopes) (formed : s.WellFormed)
    (fits : position.inClass.Fits scopes) (apart : Apart s.references) :
    Settles (s.visits sites scopes) r (s.resolve position r) := by
  have ids := apart.visits (Stmt.reference_visits sites scopes s)
  match s with
  | .expression value | .print value => exact Expr.settles position sites value here fits apart
  | .varDecl name initializer =>
    have declared : (r.declare name).scopes = declareName name.lexeme scopes := by
      rw [scopes_declare, here]
    have within := Expr.settlesOption position sites initializer declared
      (fits.congr (sameReceiver_declareName formed _)) apart
    exact ((Settles.declare name).after_quiet within ids).then_quiet (.define name) ids
  | .block body =>
    have within := Stmt.settlesAll position (.block body :: sites) body (r := r.enter [])
      (congrArg ([] :: ·) here) formed fits.enter apart
    exact ((Settles.enter []).after_quiet within ids).then_quiet .leave ids
  | .ifThen condition thenBranch =>
    have whole : Apart (condition.references ++ thenBranch.references) := by simpa using apart
    have first := Expr.settles position sites condition here fits whole.left
    have second := Stmt.settles position sites thenBranch (r := condition.resolve position r)
      ((Expr.scopes_resolve position condition r).trans here) formed.1 fits whole.right
    exact first.trans second ids
  | .ifElse condition thenBranch elseBranch =>
    have whole : Apart (condition.references ++ thenBranch.references ++ elseBranch.references) := by
      simpa using apart
    have first := Expr.settles position sites condition here fits whole.left.left
    have between := (Expr.scopes_resolve position condition r).trans here
    have second := Stmt.settles position sites thenBranch between formed.1.1 fits whole.left.right
    have after := Stmt.scopes_resolve position thenBranch (condition.resolve position r)
    rw [between] at after
    have third := Stmt.settles position sites elseBranch after formed.2.1
      (fits.congr (Stmt.sameReceiver_after formed.1.1 _)) whole.right
    have both := first.trans second (whole.left.visits
      (by simp [Stmt.reference_visits sites _ thenBranch]))
    exact both.trans third ids
  | .whileLoop condition body =>
    have whole : Apart (condition.references ++ body.references) := by simpa using apart
    have first := Expr.settles position sites condition here fits whole.left
    have second := Stmt.settles position sites body (r := condition.resolve position r)
      ((Expr.scopes_resolve position condition r).trans here) formed.1 fits whole.right
    exact first.trans second ids
  | .funDecl declaration =>
    have bound : ((r.declare declaration.name).define declaration.name).scopes =
        bindName declaration.name.lexeme scopes := by
      rw [scopes_bind, here]
    have within := FunctionDecl.settles { position with inFunction := .function } sites declaration
      bound formed (fits.congr (sameReceiver_bindName formed.name _)) apart
    exact (Settles.bind declaration.name).after_quiet within ids
  | .returnStmt keyword none => exact Settles.reportIf ..
  | .returnStmt keyword (some e) =>
    have checked := (Settles.reportIf (r := r) (position.inFunction = .outside) keyword
      .returnOutsideFunction).trans (Settles.reportIf (position.inFunction = .initializer) keyword
        .valueFromInitializer) (by simp)
    have within := Expr.settles position sites e
      (r := (r.reportIf (position.inFunction = .outside) keyword .returnOutsideFunction).reportIf
        (position.inFunction = .initializer) keyword .valueFromInitializer)
      (by rw [scopes_reportIf, scopes_reportIf, here]) fits apart
    exact checked.after_quiet within ids
  | .classDecl name none methods =>
    have bound : (((r.declare name).define name).enter receiverFrame).scopes =
        receiverFrame :: bindName name.lexeme scopes := by
      rw [← here, ← scopes_bind]
      rfl
    have opened := (Settles.bind (r := r) name).trans (.enter receiverFrame) (by simp)
    have within := FunctionDecl.settlesAll { position with inClass := .rootClass }
      (.this methods :: sites) methods bound formed.2.2 (.rootClass _) (by simpa using apart)
    exact (opened.after_quiet within ids).then_quiet .leave ids
  | .classDecl name (some e) methods =>
    have whole : Apart (e.references ++ FunctionDecl.referencesAll methods) := by
      simpa using apart
    have checked := (Settles.bind (r := r) name).trans (.checkSelfInheritance name e) (by simp)
    have bound : (checkSelfInheritance name e ((r.declare name).define name)).scopes =
        bindName name.lexeme scopes := by
      rw [scopes_checkSelfInheritance, scopes_bind, here]
    change Settles _ r (leave (leave (FunctionDecl.resolveAll { position with inClass := .subclass }
      methods ((enter (e.resolve position (checkSelfInheritance name e
        ((r.declare name).define name))) superclassFrame).enter receiverFrame))))
    generalize checkSelfInheritance name e ((r.declare name).define name) = r₁ at checked bound ⊢
    have parent := Expr.settles position sites e bound
      (fits.congr (sameReceiver_bindName formed.1 _)) whole.left
    have outside := checked.after_quiet parent
      (whole.left.visits (reference_visitsAt sites _ e.references))
    have after := (Expr.scopes_resolve position e r₁).trans bound
    generalize e.resolve position r₁ = r₂ at outside after ⊢
    have opened := (Settles.enter (r := r₂) superclassFrame).trans (.enter receiverFrame) (by simp)
    have within := FunctionDecl.settlesAll { position with inClass := .subclass }
      (.this methods :: .super methods :: sites) methods
      (r := (r₂.enter superclassFrame).enter receiverFrame)
      (congrArg (receiverFrame :: superclassFrame :: ·) after) formed.2.2 (.subclass _) whole.right
    have inside := whole.right.visits (FunctionDecl.reference_visitsAll
      (.this methods :: .super methods :: sites)
      (receiverFrame :: superclassFrame :: bindName name.lexeme scopes) methods)
    have body := ((opened.after_quiet within inside).then_quiet .leave inside).then_quiet .leave
      inside
    exact outside.trans body ids

theorem Stmt.settlesAll (position : Position) (sites : List Site) (ss : List Stmt)
    {r : Resolution} {scopes : List Frame} (here : r.scopes = scopes)
    (formed : Stmt.WellFormedAll ss) (fits : position.inClass.Fits scopes)
    (apart : Apart (references ss)) :
    Settles (Stmt.visitsAll sites scopes ss) r (Stmt.resolveAll position ss r) := by
  match ss with
  | [] => exact .refl r
  | s :: ss =>
    have whole : Apart (s.references ++ references ss) := by simpa using apart
    have first := Stmt.settles position sites s here formed.1 fits whole.left
    have after := Stmt.scopes_resolve position s r
    rw [here] at after
    have second := Stmt.settlesAll position sites ss after formed.2
      (fits.congr (Stmt.sameReceiver_after formed.1 _)) whole.right
    exact first.trans second (apart.visits (Stmt.reference_visitsAll sites scopes (s :: ss)))

theorem FunctionDecl.settles (position : Position) (sites : List Site) (f : FunctionDecl)
    {r : Resolution} {scopes : List Frame} (here : r.scopes = scopes) (formed : f.WellFormed)
    (fits : position.inClass.Fits scopes) (apart : Apart f.references) :
    Settles (f.visits sites scopes) r (f.resolve position r) := by
  have ids := apart.visits (FunctionDecl.reference_visits sites scopes f)
  match f with
  | ⟨name, parameters, body⟩ =>
    have named : ∀ n ∈ parameters.map Token.lexeme, IsName n := by
      simpa using formed.2.1
    have bound : (Resolution.declareAll parameters (r.enter [])).scopes =
        bindNames (parameters.map Token.lexeme) ([] :: scopes) := by
      rw [← here, scopes_declareAll]
      rfl
    have opened := (Settles.enter (r := r) []).trans (.declareAll parameters) (by simp)
    have within := Stmt.settlesAll position (.body ⟨name, parameters, body⟩ :: sites) body bound
      formed.2.2 (fits.enter.congr (sameReceiver_bindNames named _)) apart
    exact (opened.after_quiet within ids).then_quiet .leave ids

theorem FunctionDecl.settlesAll (position : Position) (sites : List Site)
    (fs : List FunctionDecl) {r : Resolution} {scopes : List Frame} (here : r.scopes = scopes)
    (formed : FunctionDecl.WellFormedAll fs) (fits : position.inClass.Fits scopes)
    (apart : Apart (FunctionDecl.referencesAll fs)) :
    Settles (FunctionDecl.visitsAll sites scopes fs) r
      (FunctionDecl.resolveAll position fs r) := by
  match fs with
  | [] => exact .refl r
  | f :: fs =>
    have whole : Apart (f.references ++ FunctionDecl.referencesAll fs) := by simpa using apart
    let inner := { position with inFunction := if f.isInitializer then .initializer else .method }
    have first := FunctionDecl.settles inner sites f here formed.1 fits whole.left
    have second := FunctionDecl.settlesAll position sites fs
      ((FunctionDecl.scopes_resolve inner f r).trans here) formed.2 fits whole.right
    exact first.trans second
      (apart.visits (FunctionDecl.reference_visitsAll sites scopes (f :: fs)))

end

/-! ## Programs -/

/-- The visits of a program, outside of which no scope is open. -/
def programVisits (program : List Stmt) : List Visit :=
  Stmt.visitsAll [] [] program

theorem resolve_settles {program : List Stmt} (formed : Stmt.WellFormedAll program)
    (apart : Apart (references program)) (distances : Distances) :
    (∀ id, (∀ r ∈ references program, r.id ≠ id) →
      (resolve program distances).1.get? id = distances.get? id) ∧
    ((resolve program distances).2 = [] → ∀ v ∈ programVisits program, v.Legal ∧
      (resolve program distances).1.get? v.id =
        (distance? v.name v.scopes).or (distances.get? v.id)) := by
  have settles := Stmt.settlesAll .top [] program (r := { scopes := [], distances, faults := #[] })
    rfl formed trivial apart
  refine ⟨fun id hid => settles.others id fun v hv => ?_, fun silent => settles.settled ?_⟩
  · have mem : v.reference ∈ (Stmt.visitsAll [] [] program).map Visit.reference :=
      List.mem_map_of_mem hv
    rw [Stmt.reference_visitsAll] at mem
    exact hid v.reference mem
  · exact Array.toList_inj.1 (by simpa [resolve] using silent)

end ClassScript
