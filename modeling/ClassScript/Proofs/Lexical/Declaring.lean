import ClassScript.Proofs.Lexical.Methods

set_option autoImplicit false

/-!
# Declarations that follow each other

A function sees itself and a class is seen by its methods, because the name is there before its
value: in the same scope for the one interpreter, in the map that is kept for the other.  Parameters
are declared one after the other.
-/

namespace ClassScript

open Lexical (Environment Memory Run)

variable {W : World} {c c' : Twin} {sites : List Site} {frames : List Frame} {env : Environment}
  {v w : Value} {name : String}

/-! ## Places that stay -/

/-- The present scope is there. -/
theorem Twin.Matched.bound (m : c.Matched W) {f : Nat} (laid : Laid (c.view W) sites frames f env) :
    f < c.state.scopes.size := by
  cases laid with
  | globals => exact m.rooted.inhabited
  | inside _ enclosed _ _ _ _ => exact Scopes.enclosing?_bound enclosed

/-- The scopes around the present one stay laid out. -/
theorem Laid.grown {free : Option Nat} (laid : Laid (c.view W) sites frames c.state.current env)
    (grown : c.Grown W free c') : Laid (c'.view W) sites frames c'.state.current env := by
  rw [grown.current]
  exact laid.mono grown.kept

theorem Twin.Stands.grown (h : c.Stands W sites frames env) (m : c.Matched W)
    (grown : c.Grown W none c') : c'.Stands W sites frames env := by
  refine ⟨h.laid.grown grown, fun nonempty name absent => ?_⟩
  rw [grown.current]
  exact grown.closed _ (m.bound h.laid) (Option.some_ne_none _) name (h.names nonempty name absent)

/-- A name that the present scope has, it keeps. -/
theorem Twin.Grown.present {free : Option Nat} (grown : c.Grown W free c')
    (h : ∃ u, c.state.scopes.local? c.state.current name = some u) :
    ∃ u, c'.state.scopes.local? c'.state.current name = some u := by
  obtain ⟨u, hu⟩ := h
  obtain ⟨u', hu', -⟩ := grown.kept.owned _ _ _ hu
  rw [grown.current]
  exact ⟨u', hu'⟩

namespace Follows

/-! ## Functions -/

/-- Keeping a map is nothing that the running program does. -/
theorem capture {free : Option Nat} {α β : Type} {Q : α → β → Twin → Prop} {x : Eval α}
    {l : Nat → Run β} (h : Follows W free (c.capture env) Q x (l c.memory.captured.size)) :
    Follows W free c Q x (Lexical.capture env >>= l) :=
  after (c.capture env) rfl rfl (Twin.grown_capture W c env).widen h

/-- A declared name is given a function that keeps the present scope, or the present map. -/
theorem closeFunction {declaration : FunctionDecl} (m : c.Matched W)
    (laid : Laid (c.view W) sites (bindName declaration.name.lexeme frames) c.state.current env)
    (present : ∃ u, c.state.scopes.local? c.state.current declaration.name.lexeme = some u)
    (known : declaration.Known (c.view W) sites (bindName declaration.name.lexeme frames)) :
    Follows W none c (fun _ env' _ => env' = env)
      (do
        let serial ← Eval.freshSerial
        Eval.define declaration.name.lexeme (.function serial
          { declaration, scope := c.state.current, isInitializer := false }))
      (do
        let scope ← Lexical.capture env
        let serial ← Lexical.freshSerial
        Lexical.assign env declaration.name (.function serial
          { declaration, scope, isInitializer := false })
        return env) := by
  have grown₁ := Twin.grown_capture W c env
  apply capture
  have function : SameFunction ((c.capture env).view W)
      { declaration, scope := c.state.current, isInitializer := false }
      { declaration, scope := c.memory.captured.size, isInitializer := false } :=
    ⟨rfl, rfl, nofun, sites, _, env, Twin.captured_capture c env, laid.mono grown₁.kept,
      known.mono grown₁.kept, fun initializer => by cases initializer⟩
  apply (freshSerial (m.capture env)).bind
  intro serial serial' c₂ _ m₂ grown₂ same
  rw [same]
  have grown := grown₁.trans grown₂
  have assigned := redefine m₂ (laid.grown grown) (grown.present present) known.formed.name
    (.function serial (function.mono grown₂.kept))
  refine (assigned.map_right (g := fun _ => env)).imp ?_
  rintro _ _ _ - - ⟨-, rfl, -⟩
  rfl

/-- A function is declared, and sees itself. -/
theorem declareFunction (m : c.Matched W) (stands : c.Stands W sites frames env)
    {declaration : FunctionDecl} (new : stageIn frames declaration.name.lexeme = none)
    (known : declaration.Known (c.view W) sites (bindName declaration.name.lexeme frames)) :
    Follows W (some c.state.current) c
      (fun _ env' c' => c'.Stands W sites (bindName declaration.name.lexeme frames) env')
      (do
        Eval.define declaration.name.lexeme .nil
        let serial ← Eval.freshSerial
        Eval.define declaration.name.lexeme (.function serial
          { declaration, scope := c.state.current, isInitializer := false }))
      (Lexical.declareFunction env declaration) := by
  apply (declare m stands known.formed.name new .nil).bind
  rintro _ env₁ c₁ _ m₁ grown₁ ⟨stands₁, present₁⟩
  rw [← grown₁.current]
  have closed := closeFunction m₁ stands₁.laid present₁ (known.mono grown₁.kept)
  refine (closed.imp ?_).widen
  rintro _ env' c' m' grown rfl
  exact stands₁.grown m₁ grown

/-! ## Classes -/

/-- The methods of a class keep a scope, or the map that is laid out at it. -/
theorem closeMethods {V : View} {f i : Nat} {methods : List FunctionDecl}
    (captured : V.captured[i]? = some env) (laid : Laid V sites frames f env)
    (known : ∀ d ∈ methods, d.Known V (.this methods :: sites) (receiverFrame :: frames)) :
    Bindings.Same (SameMethod V) (Eval.closeMethods f methods) (Eval.closeMethods i methods) := by
  apply Bindings.Same.ofPairs
  rw [List.forall₂_map_left_iff, List.forall₂_map_right_iff, List.forall₂_same]
  intro d hd
  exact ⟨rfl, rfl, rfl, id, methods, sites, frames, env, captured, laid, hd, known d hd⟩

/-- Assigning outward a name that the present scope has is defining it there. -/
theorem assignOutward_eq {σ : State} {token : Token}
    (present : ∃ u, σ.scopes.local? σ.current token.lexeme = some u) :
    Eval.assignOutward token v σ = Eval.define token.lexeme v σ := by
  obtain ⟨u, hu⟩ := present
  simp [Eval.assignOutward, Eval.assignIn, Eval.define, Scopes.owner?, Scopes.ownerWithin, hu]

/-- A declared name is given a class, whose methods keep a scope or a map. -/
theorem closeClass {token : Token} {methods : List FunctionDecl} {sites' : List Site}
    {frames' : List Frame} {env' : Environment} {f : Nat} {s s' : Option Class}
    (m : c.Matched W)
    (laid : Laid (c.view W) sites (bindName token.lexeme frames) c.state.current env)
    (present : ∃ u, c.state.scopes.local? c.state.current token.lexeme = some u)
    (named : IsName token.lexeme) (inner : Laid (c.view W) sites' frames' f env')
    (known : ∀ d ∈ methods, d.Known (c.view W) (.this methods :: sites') (receiverFrame :: frames'))
    (super : Option.Rel (SameClass (c.view W)) s s') :
    Follows W none c (fun _ e _ => e = env)
      (do
        let serial ← Eval.freshSerial
        Eval.assignOutward token
          (.ofClass (Class.declare ⟨serial, token.lexeme, Eval.closeMethods f methods⟩ s)))
      (do
        let scope ← Lexical.capture env'
        let serial ← Lexical.freshSerial
        Lexical.assign env token
          (.ofClass (Class.declare ⟨serial, token.lexeme, Eval.closeMethods scope methods⟩ s'))
        return env) := by
  have grown₁ := Twin.grown_capture W c env'
  apply capture
  have same : Bindings.Same (SameMethod ((c.capture env').view W)) (Eval.closeMethods f methods)
      (Eval.closeMethods c.memory.captured.size methods) :=
    closeMethods (Twin.captured_capture c env') (inner.mono grown₁.kept)
      fun d hd => (known d hd).mono grown₁.kept
  apply (freshSerial (m.capture env')).bind
  intro serial serial' c₂ _ m₂ grown₂ equal
  rw [equal]
  have grown := grown₁.trans grown₂
  have made : SameLayer (c₂.view W) ⟨serial, token.lexeme, Eval.closeMethods f methods⟩
      ⟨serial, token.lexeme, Eval.closeMethods c.memory.captured.size methods⟩ :=
    ⟨rfl, rfl, same.imp fun _ _ h => h.mono grown₂.kept⟩
  have value := SameValue.ofClass (SameClass.declare made
    (super.imp fun _ _ h => h.mono grown.kept))
  have assigned := redefine m₂ (laid.grown grown) (grown.present present) named value
  have outward := assigned.congr (assignOutward_eq (grown.present present)) rfl
  refine (outward.map_right (g := fun _ => env)).imp ?_
  rintro _ _ _ - - ⟨-, rfl, -⟩
  rfl

/-- A class is declared, and its methods see it and the class above it. -/
theorem declareClass {token : Token} {methods : List FunctionDecl} {s s' : Option Class}
    (m : c.Matched W) (stands : c.Stands W sites frames env) (named : IsName token.lexeme)
    (new : stageIn frames token.lexeme = none) (super : Option.Rel (SameClass (c.view W)) s s')
    (known : ∀ d ∈ methods, match s with
      | some _ => d.Known (c.view W) (.this methods :: .super methods :: sites)
          (receiverFrame :: superclassFrame :: bindName token.lexeme frames)
      | none => d.Known (c.view W) (.this methods :: sites)
          (receiverFrame :: bindName token.lexeme frames))
    (opened : s.isSome → W.opened c.state.scopes.size (.super methods)) :
    Follows W (some c.state.current) c
      (fun _ env' c' => c'.Stands W sites (bindName token.lexeme frames) env')
      (Eval.declareClass token s methods) (Lexical.declareClass env token s' methods) := by
  rw [declareClass_eq]
  apply (declare m stands named new .nil).bind
  rintro _ env₁ c₁ ran m₁ grown₁ ⟨stands₁, present₁⟩
  refine (Follows.imp (Q := fun _ e _ => e = env₁) ?_ ?_).widen
  · cases super with
    | none =>
      refine congr (by rfl) (by rfl)
        (closeClass m₁ stands₁.laid present₁ named stands₁.laid
          (fun d hd => (known d hd).mono grown₁.kept) .none)
    | some same =>
      rename_i k k'
      have size : c₁.state.scopes.size = c.state.scopes.size := by
        have state : c₁.state = { c.state with
            scopes := c.state.scopes.define c.state.current token.lexeme .nil } := by
          simpa [Eval.define] using ran.symm
        rw [state]
        exact Scopes.size_define ..
      have fits : (Value.ofClass k).Fits "super" :=
        ⟨fun this => absurd this (by decide), fun _ => ⟨k, rfl⟩⟩
      have above := opened rfl
      rw [← size] at above
      obtain ⟨m₂, grown₂, inner⟩ := m₁.enterWith stands₁.laid above fits
        (.ofClass (same.mono grown₁.kept))
      have grown := grown₁.trans grown₂.widen
      refine after (c₁.enterWith c₁.state.current "super" (.ofClass k) (.ofClass k'))
        ?_ ?_ grown₂
        (closeClass m₂ (stands₁.laid.grown grown₂) (grown₂.present present₁) named inner
          (fun d hd => (known d hd).mono grown.kept) (.some (same.mono grown.kept)))
      · rw [Twin.state_enterWith]
        rfl
      · rfl
  · rintro _ env' c' m' grown rfl
    exact stands₁.grown m₁ grown

end Follows

/-! ## Parameters -/

/-- Opening a scope with several names is giving them to a scope without any. -/
theorem Twin.foldl_define_push (s : Scopes Value) (outside : Option Nat)
    (pairs : List (String × Value)) (b : Bindings Value) :
    pairs.foldl (fun t p => t.define s.size p.1 p.2) (s.push b outside) =
      s.push (pairs.foldl (fun b p => b.put p.1 p.2) b) outside := by
  induction pairs generalizing b with
  | nil => rfl
  | cons p pairs ih =>
    rw [List.foldl_cons, List.foldl_cons, Twin.push_define]
    exact ih _

/-- New names are given to the innermost scope, one after the other. -/
theorem Twin.Matched.declareAll {site : Site} {frame : Frame} {f : Nat} {names : List String}
    {vs ws : List Value} (m : c.Matched W)
    (laid : Laid (c.view W) (site :: sites) (frame :: frames) f env)
    (exact_ : Exact c.state.scopes (frame :: frames) f) (new : AllNew names (frame :: frames))
    (named : ∀ n ∈ names, IsName n) (same : List.Forall₂ (SameValue (c.view W)) vs ws)
    (length : vs.length = names.length) :
    ∃ (c' : Twin) (env' : Environment),
      c'.state = { c.state with
        scopes := (names.zip vs).foldl (fun t p => t.define f p.1 p.2) c.state.scopes } ∧
      Lexical.extendAll env (names.zip ws) c.memory = .ok env' c'.memory ∧
      c'.Matched W ∧ c.Grown W (some f) c' ∧
      Laid (c'.view W) (site :: sites) (bindNames names (frame :: frames)) f env' ∧
      Exact c'.state.scopes (bindNames names (frame :: frames)) f := by
  induction names generalizing c env frame vs ws with
  | nil => exact ⟨c, env, rfl, rfl, m, .refl .., laid, exact_⟩
  | cons name names ih =>
    cases same with
    | nil => cases length
    | cons first rest =>
      rename_i v w vs ws
      obtain ⟨frame', bound, lookup⟩ := exists_bindName name frame frames
      obtain ⟨inside, size⟩ := m.inner laid
      have absent := exact_ (List.cons_ne_nil _ _) name new.1
      have fits := Value.fits_of_isName (named name List.mem_cons_self) v
      have grown := Twin.grown_declare (v := v) (w := w) m absent fits
      have others := new.2
      rw [bound] at others
      obtain ⟨c', env', state, run, m', grown', laid', exact'⟩ :=
        ih (m.declare inside size absent fits first) (laid.declare m absent fits lookup)
          (exact_.declare lookup) others (fun n hn => named n (List.mem_cons_of_mem _ hn))
          (rest.imp fun _ _ h => h.mono grown.kept) (Nat.succ.inj length)
      have next : bindNames (name :: names) (frame :: frames) =
          bindNames names (frame' :: frames) := congrArg (bindNames names) bound
      rw [next]
      exact ⟨c', env', state, run, m', grown.trans grown', laid', exact'⟩

/-- A scope is opened for a body, with its parameters. -/
theorem Twin.Matched.enterBody {site : Site} {f : Nat} {names : List String} {vs ws : List Value}
    (m : c.Matched W) (laid : Laid (c.view W) sites frames f env)
    (opened : W.opened c.state.scopes.size site) (new : AllNew names ([] :: frames))
    (named : ∀ n ∈ names, IsName n) (same : List.Forall₂ (SameValue (c.view W)) vs ws)
    (length : vs.length = names.length) :
    ∃ (c' : Twin) (env' : Environment),
      c'.state = { c.state with
        scopes := c.state.scopes.push (Bindings.ofPairs (names.zip vs)) (some f) } ∧
      Lexical.extendAll env.enter (names.zip ws) c.memory = .ok env' c'.memory ∧
      c'.Matched W ∧ c.Grown W none c' ∧
      Laid (c'.view W) (site :: sites) (bindNames names ([] :: frames)) c.state.scopes.size env' ∧
      Exact c'.state.scopes (bindNames names ([] :: frames)) c.state.scopes.size := by
  have kept := Twin.kept_enter W c f
  obtain ⟨c', env', state, run, m', grown, laid', exact'⟩ :=
    (m.enter f).declareAll (laid.enterNew opened) (Exact.enterNew c f) new named
      (same.imp fun _ _ h => h.mono kept) length
  refine ⟨c', env', ?_, run, m', ?_, laid', exact'⟩
  · rw [state]
    have scopes := Twin.foldl_define_push c.state.scopes (some f) (names.zip vs) []
    exact congrArg (fun s => { c.state with scopes := s }) scopes
  · exact ((Twin.grown_enter W c f).widen.trans grown).narrow (Nat.le_refl _)

end ClassScript
