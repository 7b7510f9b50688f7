import ClassScript.Proofs.Lexical.Declaring

set_option autoImplicit false

/-!
# What parts of a program need

An expression can be evaluated where the scopes are laid out and its references are met by the walk.
A statement is known where it stands, and so are its parts where they stand in it.
-/

namespace ClassScript

open Lexical (Environment)

variable {W : World} {c c' : Twin} {sites : List Site} {frames : List Frame} {env : Environment}

/-! ## Expressions -/

/-- Where an expression with the given references is evaluated. -/
structure Twin.Ready (W : World) (c : Twin) (sites : List Site) (frames : List Frame)
    (env : Environment) (rs : List Reference) : Prop where
  laid : Laid (c.view W) sites frames c.state.current env
  refers : ∀ r ∈ rs, Refers (c.view W) sites frames c.state.current r

namespace Twin.Ready

variable {rs us : List Reference}

theorem grown (h : c.Ready W sites frames env rs) (m : c.Matched W) (grown : c.Grown W none c') :
    c'.Ready W sites frames env rs := by
  refine ⟨h.laid.grown grown, fun r hr => ?_⟩
  obtain ⟨seen, visited, same, regular⟩ := h.refers r hr
  refine ⟨seen, visited, same, regular.imp id fun unborn => ⟨unborn.1, unborn.2.1, ?_⟩⟩
  rw [grown.current]
  exact grown.closed _ (m.bound h.laid) (Option.some_ne_none _) _ unborn.2.2

theorem subset (h : c.Ready W sites frames env rs) (sub : ∀ r ∈ us, r ∈ rs) :
    c.Ready W sites frames env us :=
  ⟨h.laid, fun r hr => h.refers r (sub r hr)⟩

theorem left (h : c.Ready W sites frames env (rs ++ us)) : c.Ready W sites frames env rs :=
  h.subset fun _ hr => List.mem_append_left _ hr

theorem right (h : c.Ready W sites frames env (rs ++ us)) : c.Ready W sites frames env us :=
  h.subset fun _ hr => List.mem_append_right _ hr

end Twin.Ready

/-- No name is under declaration where the scopes are laid out. -/
theorem Laid.stageIn_ne {V : View} {f : Nat} (laid : Laid V sites frames f env) (name : String) :
    stageIn frames name ≠ some .declared := by
  intro unborn
  cases laid with
  | globals => cases unborn
  | inside _ _ has _ _ _ =>
    obtain ⟨defined, -⟩ := has name .declared unborn
    cases defined

theorem isName_empty : IsName "" :=
  ⟨by decide, by decide⟩

/-- An expression that the walk meets just where the scopes are laid out. -/
theorem Laid.ready {rs : List Reference} (laid : Laid (c.view W) sites frames c.state.current env)
    (visits : ∀ v ∈ visitsAt sites frames rs, W.visited v) : c.Ready W sites frames env rs :=
  ⟨laid, fun _ hr => ⟨frames, visits _ (mem_visitsAt_of_mem hr),
    ⟨"", isName_empty, .refl "" frames⟩, .inl ⟨laid.stageIn_ne _, rfl⟩⟩⟩

/-- The expression of a statement that declares nothing. -/
theorem Twin.Stands.ready {rs : List Reference} {s : Stmt} (stands : c.Stands W sites frames env)
    (known : s.Known (c.view W) sites frames)
    (only : s.visits sites frames = visitsAt sites frames rs) : c.Ready W sites frames env rs := by
  have visits := known.visits
  rw [only] at visits
  exact stands.laid.ready visits

/-- The initializer of a name that is new to its scope. -/
theorem Twin.Stands.initializer {rs : List Reference} {name : String}
    (stands : c.Stands W sites frames env) (named : IsName name) (new : stageIn frames name = none)
    (visits : ∀ v ∈ visitsAt sites (declareName name frames) rs, W.visited v) :
    c.Ready W sites frames env rs := by
  refine ⟨stands.laid, fun r hr => ⟨declareName name frames,
    visits _ (mem_visitsAt_of_mem hr), ⟨name, named, alikeBut_declareName name frames⟩, ?_⟩⟩
  have declared : declareName name frames = putName name .declared frames := by
    rw [declareName, new]
    rfl
  cases frames with
  | nil => exact .inl ⟨stands.laid.stageIn_ne _, rfl⟩
  | cons frame frames =>
    by_cases same : r.token.lexeme = name
    · rw [same, declared]
      refine .inr ⟨?_, named, stands.names (List.cons_ne_nil _ _) name new⟩
      simp [stageIn, putName]
    · refine .inl ⟨?_, distance?_declareName same _⟩
      have regular := stands.laid.stageIn_ne r.token.lexeme
      rw [declared]
      simpa [stageIn, putName, List.lookup_cons, beq_eq_false_iff_ne.2 same] using regular

/-- The superclass of a class that is new to its scope, given by another name. -/
theorem Twin.Stands.superclass {id : Nat} {token : Token} {name : String}
    (stands : c.Stands W sites frames env) (named : IsName name) (other : token.lexeme ≠ name)
    (visits : ∀ v ∈ visitsAt sites (bindName name frames) (Expr.name id token).references,
      W.visited v) : c.Ready W sites frames env (Expr.name id token).references := by
  refine ⟨stands.laid, fun r hr => ⟨bindName name frames, visits _ (mem_visitsAt_of_mem hr),
    ⟨name, named, alikeBut_bindName name frames⟩, .inl ?_⟩⟩
  obtain rfl : r = ⟨.name, id, token⟩ := by simpa using hr
  refine ⟨?_, distance?_bindName other _⟩
  have regular := stands.laid.stageIn_ne token.lexeme
  cases frames with
  | nil => exact regular
  | cons frame frames =>
    obtain ⟨frame', bound, lookup⟩ := exists_bindName name frame frames
    change stageIn (bindName name (frame :: frames)) token.lexeme ≠ _
    rw [bound]
    change frame'.lookup token.lexeme ≠ _
    rw [lookup, if_neg other]
    exact regular

/-! ## Statements -/

/-- A statement that declares nothing leaves the frames as they are. -/
theorem Stmt.after_eq {s : Stmt} (formed : s.WellFormed) (plain : s.declares? = none)
    (frames : List Frame) : s.after frames = frames := by
  match s with
  | .varDecl .. | .funDecl .. | .classDecl .. => cases plain
  | .ifThen _ thenBranch => exact Stmt.after_eq formed.1 formed.2 frames
  | .ifElse _ thenBranch elseBranch =>
    have first := Stmt.after_eq formed.1.1 formed.1.2 frames
    have second := Stmt.after_eq formed.2.1 formed.2.2 frames
    rw [Stmt.after, first, second]
  | .whileLoop _ body => exact Stmt.after_eq formed.1 formed.2 frames
  | .expression _ | .print _ | .block _ | .returnStmt .. => rfl

/-- The scope of the receiver is none in which a name was bound. -/
theorem bindName_ne_receiver {name : String} (named : IsName name) (frames outer : List Frame) :
    bindName name frames ≠ receiverFrame :: outer := by
  intro same
  cases frames with
  | nil => cases same
  | cons frame frames =>
    obtain ⟨frame', bound, look⟩ := exists_bindName name frame frames
    obtain ⟨rfl, -⟩ := List.cons.inj (bound.symm.trans same)
    have here := look name
    rw [if_pos rfl, receiverFrame, lookup_put, if_neg named.1] at here
    cases here

section Parts

variable {V : View} {condition : Expr} {s thenBranch elseBranch body : Stmt} {ss : List Stmt}

theorem Stmt.Known.block (h : (Stmt.block ss).Known V sites frames) :
    Stmt.KnownAll V (.block ss :: sites) ([] :: frames) ss :=
  ⟨h.visits, h.formed, h.new, h.returns⟩

theorem Stmt.Known.thenOnly (h : (Stmt.ifThen condition thenBranch).Known V sites frames) :
    (∀ v ∈ visitsAt sites frames condition.references, V.visited v) ∧
      thenBranch.Known V sites frames ∧ thenBranch.after frames = frames :=
  ⟨fun v hv => h.visits v (List.mem_append_left _ hv),
    ⟨fun v hv => h.visits v (List.mem_append_right _ hv), h.formed.1, h.new, h.returns⟩,
    Stmt.after_eq h.formed.1 h.formed.2 frames⟩

theorem Stmt.Known.branches
    (h : (Stmt.ifElse condition thenBranch elseBranch).Known V sites frames) :
    (∀ v ∈ visitsAt sites frames condition.references, V.visited v) ∧
      (thenBranch.Known V sites frames ∧ thenBranch.after frames = frames) ∧
      elseBranch.Known V sites frames ∧ elseBranch.after frames = frames := by
  have same := Stmt.after_eq h.formed.1.1 h.formed.1.2 frames
  have new := h.new.2
  have visits := h.visits
  simp only [Stmt.visits, same, List.mem_append] at visits
  rw [same] at new
  obtain ⟨position, first, second⟩ := h.returns
  exact ⟨fun v hv => visits v (.inl (.inl hv)),
    ⟨⟨fun v hv => visits v (.inl (.inr hv)), h.formed.1.1, h.new.1, position, first⟩, same⟩,
    ⟨fun v hv => visits v (.inr hv), h.formed.2.1, new, position, second⟩,
    Stmt.after_eq h.formed.2.1 h.formed.2.2 frames⟩

theorem Stmt.Known.loop (h : (Stmt.whileLoop condition body).Known V sites frames) :
    (∀ v ∈ visitsAt sites frames condition.references, V.visited v) ∧
      body.Known V sites frames ∧ body.after frames = frames :=
  ⟨fun v hv => h.visits v (List.mem_append_left _ hv),
    ⟨fun v hv => h.visits v (List.mem_append_right _ hv), h.formed.1, h.new, h.returns⟩,
    Stmt.after_eq h.formed.1 h.formed.2 frames⟩

theorem Stmt.Known.function {f : FunctionDecl} (h : (Stmt.funDecl f).Known V sites frames) :
    stageIn frames f.name.lexeme = none ∧ f.Known V sites (bindName f.name.lexeme frames) := by
  obtain ⟨_, returned⟩ := h.returns
  have named : IsName f.name.lexeme := FunctionDecl.FormedBy.name h.formed
  exact ⟨h.new.1, h.visits, h.formed, h.new.2, .function, returned,
    fun outer same => absurd same (bindName_ne_receiver named frames outer)⟩

theorem Stmt.KnownAll.head (h : Stmt.KnownAll V sites frames (s :: ss)) :
    s.Known V sites frames :=
  ⟨fun v hv => h.visits v (List.mem_append_left _ hv), h.formed.1, h.new.1,
    h.returns.imp fun _ returns => returns.1⟩

theorem Stmt.KnownAll.tail (h : Stmt.KnownAll V sites frames (s :: ss)) :
    Stmt.KnownAll V sites (s.after frames) ss :=
  ⟨fun v hv => h.visits v (List.mem_append_right _ hv), h.formed.2, h.new.2,
    h.returns.imp fun _ returns => returns.2⟩

/-- The parameters and the body of a function. -/
theorem FunctionDecl.Known.parts {f : FunctionDecl} (h : f.Known V sites frames) :
    AllNew (f.parameters.map Token.lexeme) ([] :: frames) ∧
      (∀ n ∈ f.parameters.map Token.lexeme, IsName n) ∧
      Stmt.KnownAll V (.body f :: sites)
        (bindNames (f.parameters.map Token.lexeme) ([] :: frames)) f.body := by
  obtain ⟨name, parameters, body⟩ := f
  refine ⟨h.new.1, ?_, h.visits, h.formed.2.2, h.new.2, h.returns.imp fun _ returns => returns.1⟩
  simpa using h.formed.2.1

/-- Every one of several methods is known where they are. -/
theorem FunctionDecl.knownAll {fs : List FunctionDecl}
    (visits : ∀ v ∈ FunctionDecl.visitsAll sites frames fs, V.visited v)
    (formed : FunctionDecl.WellFormedAll fs) (new : FunctionDecl.DeclaresNewAll frames fs)
    (returns : FunctionDecl.MethodsReturn fs) : ∀ f ∈ fs, f.Known V sites frames := by
  induction fs with
  | nil => exact fun f hf => absurd hf List.not_mem_nil
  | cons g fs ih =>
    intro f hf
    rcases List.mem_cons.1 hf with rfl | hf
    · exact ⟨fun v hv => visits v (List.mem_append_left _ hv), formed.1, new.1,
        f.methodPosition, returns.1, fun _ _ => rfl⟩
    · exact ih (fun v hv => visits v (List.mem_append_right _ hv)) formed.2 new.2 returns.2 f hf

/-- A class without a superclass, and its methods. -/
theorem Stmt.Known.rootClass {name : Token} {methods : List FunctionDecl}
    (h : (Stmt.classDecl name none methods).Known V sites frames) :
    IsName name.lexeme ∧ stageIn frames name.lexeme = none ∧
      ∀ d ∈ methods, d.Known V (.this methods :: sites)
        (receiverFrame :: bindName name.lexeme frames) := by
  obtain ⟨_, returned⟩ := h.returns
  exact ⟨h.formed.1, h.new.1, FunctionDecl.knownAll h.visits h.formed.2.2 h.new.2 returned⟩

/-- A class with a superclass, which is given by another name, and its methods. -/
theorem Stmt.Known.subclass {name : Token} {e : Expr} {methods : List FunctionDecl}
    (h : (Stmt.classDecl name (some e) methods).Known V sites frames) :
    IsName name.lexeme ∧ stageIn frames name.lexeme = none ∧
      (∃ id token, e = .name id token ∧ token.lexeme ≠ name.lexeme) ∧
      (∀ v ∈ visitsAt sites (bindName name.lexeme frames) e.references, V.visited v) ∧
      ∀ d ∈ methods, d.Known V (.this methods :: .super methods :: sites)
        (receiverFrame :: superclassFrame :: bindName name.lexeme frames) := by
  obtain ⟨id, token, given⟩ := h.formed.2.1 e rfl
  obtain ⟨_, returned⟩ := h.returns
  refine ⟨h.formed.1, h.new.1, ⟨id, token, given, h.new.2.1 id token given⟩,
    fun v hv => h.visits v (List.mem_append_left _ hv), ?_⟩
  exact FunctionDecl.knownAll (fun v hv => h.visits v (List.mem_append_right _ hv)) h.formed.2.2
    h.new.2.2 returned

end Parts

end ClassScript
