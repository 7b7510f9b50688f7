import ClassScript.Proofs.Grammar.Beginnings

set_option autoImplicit false

/-!
# A fault is found at the first token that cannot be right

A step of reading looks one token ahead.  `Foresees V p p'` says of a step `p`, and of the same step
with other fuel, that its first hard fault is placed at the token after some tokens `ts` with `V ts`,
which says that they could still have been continued; and that there is no way around the fault,
because the step goes wrong wherever the same tokens come with the same one after them.  So no
sentence has these tokens.
-/

namespace ClassScript.Parser

open Grammar

variable {α β : Type}

/-! ## Hard faults -/

/-- What a run reports, its last fault included. -/
def reported (c : Cursor) : EStateM.Result Halt Cursor α → List Diagnostic
  | .ok _ c' => c'.faults.toList.drop c.faults.size
  | .error (.fault x) c' => c'.faults.toList.drop c.faults.size ++ [x]
  | .error .exhausted _ => []

/-- The first diagnostic of a run that stops a declaration. -/
def firstHard (c : Cursor) (run : EStateM.Result Halt Cursor α) : Option Diagnostic :=
  (reported c run).find? fun x => !x.isSoft

/-- The fuel was not enough. -/
def Exhausted (run : EStateM.Result Halt Cursor α) : Prop :=
  ∃ c, run = .error .exhausted c

/-- The step is not known to go well. -/
def Stumbles (p : Parser α) (c : Cursor) : Prop :=
  Exhausted (p c) ∨ (firstHard c (p c)).isSome

theorem Reads.drop {ts : List Token} {ds : List Diagnostic} {c c' : Cursor}
    (h : Reads ts ds c c') : c'.faults.toList.drop c.faults.size = ds := by
  rw [h.faults, ← Array.length_toList, List.drop_left]

theorem firstHard_pure {c : Cursor} {a : α} : firstHard c (.ok a c) = none := by
  rw [firstHard, reported, (Reads.refl c).drop]
  rfl

/-- What a run reports that fails does not depend on what it should have yielded. -/
theorem firstHard_error {c c' : Cursor} {halt : Halt} :
    firstHard c (.error halt c' : EStateM.Result Halt Cursor β) =
      firstHard c (.error halt c' : EStateM.Result Halt Cursor α) := by
  cases halt <;> rfl

/-- A run that reports nothing hard reports what a relaxed dialect tolerates. -/
theorem tolerates_of_firstHard {ts : List Token} {ds : List Diagnostic} {c c' : Cursor} {a : α}
    (reads : Reads ts ds c c') (soft : firstHard c (.ok a c') = none) :
    ∀ x ∈ ds, Dialect.relaxed.Tolerates x := by
  intro x hx
  rw [firstHard, reported, reads.drop, List.find?_eq_none] at soft
  exact ⟨rfl, by simpa using soft x hx⟩

/-- Of two steps in sequence, the first one is the first to report. -/
theorem firstHard_bind {G : List Token → α → List Token → Prop}
    {H : List Token → β → List Token → Prop} {p : Parser α} {f : α → Parser β} {c c₁ : Cursor} {a : α}
    (hp : Sound .relaxed G p) (hf : Sound .relaxed H (f a)) (closes : c.closing.kind = .endOfSource)
    (ran : p c = .ok a c₁) :
    Exhausted (f a c₁) ∨
      firstHard c (f a c₁) = (firstHard c (p c)).or (firstHard c₁ (f a c₁)) := by
  obtain ⟨ts, ds, reads, -⟩ := hp.ok closes ran
  have closes₁ : c₁.closing.kind = .endOfSource := reads.closing ▸ closes
  cases more : f a c₁ with
  | ok b c₂ =>
    obtain ⟨us, es, reads', -⟩ := hf.ok closes₁ more
    rw [ran, firstHard, firstHard, firstHard, reported, reported, reported, reads.drop, reads'.drop,
      (reads.trans reads').drop, List.find?_append]
    exact .inr rfl
  | error halt c₂ =>
    cases halt with
    | exhausted => exact .inl ⟨c₂, rfl⟩
    | fault x =>
      obtain ⟨⟨us, es, reads'⟩, -⟩ := hf.fault closes₁ more
      rw [ran, firstHard, firstHard, firstHard, reported, reported, reported, reads.drop,
        reads'.drop, (reads.trans reads').drop, List.append_assoc, List.find?_append]
      exact .inr rfl

/-- Where the first step stumbles, both do. -/
theorem Stumbles.bind {G : List Token → α → List Token → Prop}
    {H : α → List Token → β → List Token → Prop} {p : Parser α} {f : α → Parser β} {c : Cursor}
    (h : Stumbles p c) (hp : Sound .relaxed G p) (hf : ∀ a, Sound .relaxed (H a) (f a))
    (closes : c.closing.kind = .endOfSource) : Stumbles (p >>= f) c := by
  rcases h with ⟨c₁, gone⟩ | hard
  · exact .inl ⟨c₁, bind_eq_error.2 (.inl gone)⟩
  · cases ran : p c with
    | error halt c₁ =>
      refine .inr ?_
      rw [bind_eq_error.2 (.inl ran), firstHard_error]
      rwa [ran] at hard
    | ok a c₁ =>
      unfold Stumbles
      rw [bind_of_ok ran]
      refine (firstHard_bind hp (hf a) closes ran).imp_right fun same => ?_
      rw [same, Option.isSome_or, hard, Bool.true_or]

/-- Where the first step goes well and the second one stumbles, both do. -/
theorem Stumbles.later {G : List Token → α → List Token → Prop}
    {H : List Token → β → List Token → Prop} {p : Parser α} {f : α → Parser β} {c c₁ : Cursor} {a : α}
    (ran : p c = .ok a c₁) (h : Stumbles (f a) c₁) (hp : Sound .relaxed G p)
    (hf : Sound .relaxed H (f a)) (closes : c.closing.kind = .endOfSource) :
    Stumbles (p >>= f) c := by
  unfold Stumbles
  rw [bind_of_ok ran]
  rcases h with gone | hard
  · exact .inl gone
  · refine (firstHard_bind hp hf closes ran).imp_right fun same => ?_
    rw [same, Option.isSome_or, hard, Bool.or_true]

/-! ## The same tokens again -/

/-- One state has the tokens `ts` and then `r` before it, the other one the same `ts` and then `s`,
and one more token of `r` and `s` is the same. -/
structure Alike (ts r s : List Token) (c c' : Cursor) : Prop where
  rest : c.rest = ts ++ r
  rest' : c'.rest = ts ++ s
  next : s.head? = r.head?
  closing : c'.closing = c.closing
  nextId : c'.nextId = c.nextId

namespace Alike

variable {ts us r s : List Token} {c c' : Cursor}

theorem head (h : Alike ts r s c c') : c'.rest.head? = c.rest.head? := by
  rw [h.rest, h.rest', List.head?_append, List.head?_append, h.next]

theorem split (h : Alike (ts ++ us) r s c c') : Alike ts (us ++ r) (us ++ s) c c' where
  rest := by rw [h.rest, List.append_assoc]
  rest' := by rw [h.rest', List.append_assoc]
  next := by rw [List.head?_append, List.head?_append, h.next]
  closing := h.closing
  nextId := h.nextId

/-- After the first tokens, the others are still the same. -/
theorem after {c₁ c₁' : Cursor} (h : Alike (ts ++ us) r s c c')
    (k : Alike [] (us ++ r) (us ++ s) c₁ c₁') : Alike us r s c₁ c₁' :=
  ⟨k.rest, k.rest', h.next, k.closing, k.nextId⟩

/-- A token is taken in both states. -/
theorem take {t : Token} (h : Alike (t :: ts) r s c c') :
    c'.rest = t :: (ts ++ s) ∧
      Alike ts r s { c with rest := ts ++ r } { c' with rest := ts ++ s } :=
  ⟨h.rest', rfl, rfl, h.next, h.closing, h.nextId⟩

end Alike

/-! ## Foresight -/

/-- The first hard fault of `p` is placed at the token after some tokens with `V`; and where the same
tokens come with the same token after them, every one of the steps `q` does what `p` does, or stumbles
as `p` does.  These steps are `p` with any fuel. -/
structure Foresees (V : List Token → Prop) (p : Parser α) (q : Nat → Parser α) : Prop where
  sound : Sound .relaxed (fun _ _ _ => True) p
  sounds : ∀ n, Sound .relaxed (fun _ _ _ => True) (q n)
  again : ∀ {c c₁ : Cursor} {a : α} {ts : List Token}, c.closing.kind = .endOfSource →
    p c = .ok a c₁ → firstHard c (p c) = none → ∀ (n : Nat) {c' : Cursor} {s : List Token},
      Alike ts c₁.rest s c c' →
        Exhausted (q n c') ∨ ∃ c₁', q n c' = .ok a c₁' ∧ Alike [] c₁.rest s c₁ c₁'
  found : ∀ {c : Cursor} {x : Diagnostic}, c.closing.kind = .endOfSource →
    firstHard c (p c) = some x → ∃ ts r fault, c.rest = ts ++ r ∧
      x = .grammar (r.head?.getD c.closing) fault ∧ V ts ∧
      ∀ (n : Nat) {c' : Cursor} {s : List Token}, Alike ts r s c c' → Stumbles (q n) c'

/-- What is said of a step whatever it takes and yields. -/
theorem Sound.any {d : Dialect} {G : List Token → α → List Token → Prop} {p : Parser α}
    (h : Sound d G p) : Sound d (fun _ _ _ => True) p :=
  h.mono fun _ _ _ _ => trivial

namespace Foresees

variable {V W : List Token → Prop}

theorem mono {p : Parser α} {q : Nat → Parser α} (h : Foresees V p q) (imp : ∀ ts, V ts → W ts) :
    Foresees W p q where
  sound := h.sound
  sounds := h.sounds
  again := h.again
  found closes hard := by
    obtain ⟨ts, r, fault, rest, placed, begun, stumbles⟩ := h.found closes hard
    exact ⟨ts, r, fault, rest, placed, imp ts begun, stumbles⟩

protected theorem pure (a : α) : Foresees V (pure a) fun _ => pure a where
  sound := Sound.pure fun _ => trivial
  sounds _ := Sound.pure fun _ => trivial
  again := by
    intro c c₁ b ts _ ran _ n c' s alike
    cases ran
    have none : ts = [] := List.append_left_eq_self.1 alike.rest.symm
    subst none
    exact .inr ⟨c', rfl, alike⟩
  found := by
    intro c x _ hard
    cases firstHard_pure.symm.trans hard

/-- Without fuel nothing is found. -/
theorem exhausted {q : Nat → Parser α} (sounds : ∀ n, Sound .relaxed (fun _ _ _ => True) (q n)) :
    Foresees V Parser.exhausted q where
  sound := .exhausted
  sounds := sounds
  again _ ran := nomatch ran
  found _ hard := nomatch hard

/-- Steps without fuel may be added to the others. -/
theorem fueled {p : Parser α} {q : Nat → Parser α} (h : Foresees V p fun n => q (n + 1))
    (zero : q 0 = Parser.exhausted) : Foresees V p q where
  sound := h.sound
  sounds
    | 0 => zero ▸ .exhausted
    | n + 1 => h.sounds n
  again closes ran soft n c' s alike := by
    cases n with
    | zero => exact .inl ⟨c', zero ▸ rfl⟩
    | succ n => exact h.again closes ran soft n alike
  found closes hard := by
    obtain ⟨ts, r, fault, rest, placed, begun, stumbles⟩ := h.found closes hard
    refine ⟨ts, r, fault, rest, placed, begun, fun n c' s alike => ?_⟩
    cases n with
    | zero => exact .inl ⟨c', zero ▸ rfl⟩
    | succ n => exact stumbles n alike

/-- Of the other steps, only some may be meant. -/
theorem reindex {p : Parser α} {q : Nat → Parser α} (h : Foresees V p q) (k : Nat → Nat) :
    Foresees V p fun n => q (k n) where
  sound := h.sound
  sounds n := h.sounds (k n)
  again closes ran soft n _ _ alike := h.again closes ran soft (k n) alike
  found closes hard := by
    obtain ⟨ts, r, fault, rest, placed, begun, stumbles⟩ := h.found closes hard
    exact ⟨ts, r, fault, rest, placed, begun, fun n _ _ alike => stumbles (k n) alike⟩

/-- A fault right here, if nothing stands against going on. -/
theorem fail {fault : GrammarFault} (hard : ∀ t, (Diagnostic.grammar t fault).isSoft = false)
    (begun : V []) : Foresees V (fail fault : Parser α) fun _ => fail fault where
  sound := Sound.fail hard
  sounds _ := Sound.fail hard
  again _ ran := nomatch ran
  found := by
    have reports : ∀ c : Cursor, firstHard c ((Parser.fail fault : Parser α) c) =
        some (.grammar (c.rest.head?.getD c.closing) fault) := by
      intro c
      change List.find? _ (List.drop _ _ ++ [_]) = _
      rw [(Reads.refl c).drop, List.nil_append, List.find?_singleton, hard]
      rfl
    intro c x _ first
    have same := Option.some.inj ((reports c).symm.trans first)
    refine ⟨[], c.rest, fault, rfl, same.symm, begun, fun n c' s alike => .inr ?_⟩
    rw [reports]
    rfl

/-! ### Steps in sequence -/

/-- Wherever the first step goes wrong, both do; wherever the first one goes well, what it took is
known, and the second one goes on with the same tokens. -/
protected theorem bind {G : List Token → α → List Token → Prop} {p : Parser α} {q : Nat → Parser α}
    {f : α → Parser β} {g : Nat → α → Parser β} (hp : Foresees V p q) (sound : Sound .relaxed G p)
    (begun : ∀ ts, V ts → W ts)
    (hf : ∀ a, Foresees (fun us => ∀ ts rest, G ts a rest → W (ts ++ us)) (f a) fun n => g n a) :
    Foresees W (p >>= f) fun n => q n >>= g n where
  sound := hp.sound.bind fun a => (hf a).sound.mono fun _ _ _ _ _ _ => trivial
  sounds n := (hp.sounds n).bind fun a => ((hf a).sounds n).mono fun _ _ _ _ _ _ => trivial
  again := by
    intro c c₂ b ts closes ran soft n c' s alike
    obtain ⟨a, c₁, first, second⟩ := bind_eq_ok.1 ran
    obtain ⟨ts₁, ds₁, reads₁, -⟩ := hp.sound.ok closes first
    have closes₁ : c₁.closing.kind = .endOfSource := reads₁.closing ▸ closes
    obtain ⟨ts₂, ds₂, reads₂, -⟩ := (hf a).sound.ok closes₁ second
    rw [bind_of_ok first] at soft
    have both : firstHard c (p c) = none ∧ firstHard c₁ (f a c₁) = none := by
      rcases firstHard_bind hp.sound (hf a).sound closes first with ⟨c₃, gone⟩ | same
      · cases second.symm.trans gone
      · exact Option.or_eq_none_iff.1 (same ▸ soft)
    obtain rfl : ts = ts₁ ++ ts₂ := by
      refine List.append_cancel_right (alike.rest.symm.trans ?_)
      rw [reads₁.rest, reads₂.rest, List.append_assoc]
    have here : Alike ts₁ c₁.rest (ts₂ ++ s) c c' := reads₂.rest ▸ alike.split
    rcases hp.again closes first both.1 n here with ⟨c₃, gone⟩ | ⟨c₁', first', alike₁⟩
    · exact .inl ⟨c₃, bind_eq_error.2 (.inl gone)⟩
    · rw [bind_of_ok first']
      exact (hf a).again closes₁ second both.2 n (alike.after (reads₂.rest ▸ alike₁))
  found := by
    intro c x closes hard
    have early : firstHard c (p c) = some x → ∃ ts r fault, c.rest = ts ++ r ∧
        x = .grammar (r.head?.getD c.closing) fault ∧ W ts ∧
        ∀ (n : Nat) {c' : Cursor} {s : List Token}, Alike ts r s c c' →
          Stumbles (q n >>= g n) c' := by
      intro first
      obtain ⟨ts, r, fault, rest, placed, begun', stumbles⟩ := hp.found closes first
      refine ⟨ts, r, fault, rest, placed, begun ts begun', fun n c' s alike => ?_⟩
      exact (stumbles n alike).bind (hp.sounds n) (fun a => (hf a).sounds n)
        (alike.closing ▸ closes)
    cases first : p c with
    | error halt c₁ =>
      rw [bind_eq_error.2 (.inl first), firstHard_error] at hard
      rw [first] at early
      exact early hard
    | ok a c₁ =>
      obtain ⟨ts₁, ds₁, reads₁, good⟩ := sound.ok closes first
      have closes₁ : c₁.closing.kind = .endOfSource := reads₁.closing ▸ closes
      rw [bind_of_ok first] at hard
      rcases firstHard_bind hp.sound (hf a).sound closes first with ⟨c₂, gone⟩ | same
      · rw [gone] at hard
        cases hard
      rcases Option.or_eq_some_iff.1 (same.symm.trans hard) with now | ⟨soft, later⟩
      · exact early now
      obtain ⟨ts₂, r, fault, rest, placed, begun', stumbles⟩ := (hf a).found closes₁ later
      have good₁ := good (tolerates_of_firstHard reads₁ (first ▸ soft))
      refine ⟨ts₁ ++ ts₂, r, fault, ?_, reads₁.closing ▸ placed, begun' ts₁ _ good₁, ?_⟩
      · rw [reads₁.rest, rest, List.append_assoc]
      · intro n c' s alike
        have closes' : c'.closing.kind = .endOfSource := alike.closing ▸ closes
        have here : Alike ts₁ c₁.rest (ts₂ ++ s) c c' := rest ▸ alike.split
        rcases hp.again closes first soft n here with ⟨c₂, gone⟩ | ⟨c₁', first', alike₁⟩
        · exact .inl ⟨c₂, bind_eq_error.2 (.inl gone)⟩
        · have stumbles' := stumbles n (alike.after (rest ▸ alike₁))
          exact .later first' stumbles' (hp.sounds n) ((hf a).sounds n) closes'

/-- A step whose result is only dressed up. -/
theorem bind_pure {p : Parser α} {q : Nat → Parser α} {f : α → β} (hp : Foresees V p q)
    (begun : ∀ ts, V ts → W ts) :
    Foresees W (p >>= fun a => Pure.pure (f a)) fun n => q n >>= fun a => Pure.pure (f a) :=
  hp.bind hp.sound begun fun a => Foresees.pure (f a)

theorem map {p : Parser α} {q : Nat → Parser α} {f : α → β} (hp : Foresees V p q) :
    Foresees V (f <$> p) fun n => f <$> q n := by
  simp only [map_eq_pure_bind]
  exact hp.bind_pure fun _ => id

end Foresees

/-! ## The steps that take no token -/

theorem Sound.of_quiet {d : Dialect} {p : Parser α}
    (quiet : ∀ c, ∃ a c₁, p c = .ok a c₁ ∧ Reads [] [] c c₁) :
    Sound d (fun ts _ _ => ts = []) p := by
  have sound : Sound d (fun ts _ _ => ts = []) (p >>= pure) :=
    Sound.quiet_bind quiet fun a => Sound.pure fun _ => rfl
  simpa using sound

theorem firstHard_quiet {p : Parser α} {c : Cursor}
    (quiet : ∃ a c₁, p c = .ok a c₁ ∧ Reads [] [] c c₁) : firstHard c (p c) = none := by
  obtain ⟨a, c₁, ran, reads⟩ := quiet
  rw [ran, firstHard, reported, reads.drop]
  rfl

namespace Foresees

variable {V : List Token → Prop}

/-- A step that takes and reports nothing, and yields the same where the next token is the same. -/
theorem quiet_bind {p : Parser α} {f : α → Parser β} {g : Nat → α → Parser β}
    (quiet : ∀ c, ∃ a c₁, p c = .ok a c₁ ∧ Reads [] [] c c₁)
    (same : ∀ {c c₁ : Cursor} {a : α}, p c = .ok a c₁ → ∀ {c' : Cursor} {s : List Token},
      Alike [] c₁.rest s c c' → ∃ c₁', p c' = .ok a c₁' ∧ Alike [] c₁.rest s c₁ c₁')
    (hf : ∀ a, Foresees V (f a) fun n => g n a) :
    Foresees V (p >>= f) fun n => p >>= g n := by
  have still : Foresees V p fun _ => p := by
    refine ⟨(Sound.of_quiet quiet).any, fun _ => (Sound.of_quiet quiet).any, ?_, ?_⟩
    · intro c c₁ a ts closes ran _ n c' s alike
      obtain ⟨a', c₂, ran', reads⟩ := quiet c
      cases ran.symm.trans ran'
      have none : ts = [] := List.append_left_eq_self.1 (alike.rest.symm.trans reads.rest)
      subst none
      exact .inr (same ran alike)
    · intro c x _ hard
      cases (firstHard_quiet (quiet c)).symm.trans hard
  refine still.bind (Sound.of_quiet quiet) (fun _ => id) fun a => (hf a).mono ?_
  rintro us begun ts rest rfl
  exact begun

theorem check_bind {kind : TokenKind} {f : Bool → Parser β} {g : Nat → Bool → Parser β}
    (hf : ∀ found, Foresees V (f found) fun n => g n found) :
    Foresees V (check kind >>= f) fun n => check kind >>= g n := by
  refine quiet_bind (quiet_check kind) (fun {c c₁ a} ran c' s alike => ⟨c', ?_, ?_⟩) hf
  · cases ran
    change EStateM.Result.ok (c'.rest.head?.any _) c' = _
    rw [alike.head]
  · cases ran
    exact alike

theorem atEnd_bind {f : Bool → Parser β} {g : Nat → Bool → Parser β}
    (hf : ∀ ended, Foresees V (f ended) fun n => g n ended) :
    Foresees V (atEnd >>= f) fun n => atEnd >>= g n := by
  refine quiet_bind quiet_atEnd (fun {c c₁ a} ran c' s alike => ⟨c', ?_, ?_⟩) hf
  · cases ran
    change EStateM.Result.ok c'.rest.isEmpty c' = _
    have head := alike.head
    cases here : c.rest <;> cases there : c'.rest <;> simp [here, there] at head ⊢
  · cases ran
    exact alike

theorem peek_bind {f : Token → Parser β} {g : Nat → Token → Parser β}
    (hf : ∀ t, Foresees V (f t) fun n => g n t) :
    Foresees V (peek >>= f) fun n => peek >>= g n := by
  refine quiet_bind (fun c => ⟨_, c, rfl, .refl c⟩)
    (fun {c c₁ a} ran c' s alike => ⟨c', ?_, ?_⟩) hf
  · cases ran
    change EStateM.Result.ok (c'.rest.head?.getD c'.closing) c' = _
    rw [alike.head, alike.closing]
  · cases ran
    exact alike

theorem freshId_bind {f : Nat → Parser β} {g : Nat → Nat → Parser β}
    (hf : ∀ id, Foresees V (f id) fun n => g n id) :
    Foresees V (freshId >>= f) fun n => freshId >>= g n := by
  refine quiet_bind quiet_freshId
    (fun {c c₁ a} ran c' s alike => ⟨{ c' with nextId := c'.nextId + 1 }, ?_, ?_⟩) hf
  · cases ran
    change EStateM.Result.ok c'.nextId _ = _
    rw [alike.nextId]
  · cases ran
    exact ⟨alike.rest, alike.rest', alike.next, alike.closing, congrArg (· + 1) alike.nextId⟩

/-- As much fuel as there are tokens left is some fuel. -/
theorem fuel_bind {p : Nat → Parser α} (hp : ∀ fuel, Foresees V (p fuel) p) :
    Foresees V (get >>= fun c => p c.rest.length) fun _ => get >>= fun c => p c.rest.length where
  sound := Sound.quiet_bind quiet_get fun c => (hp _).sound
  sounds _ := Sound.quiet_bind quiet_get fun c => (hp _).sound
  again closes ran soft _ c' _ alike := (hp _).again closes ran soft c'.rest.length alike
  found {c} _ closes hard := by
    obtain ⟨ts, r, fault, rest, placed, begun, stumbles⟩ := (hp c.rest.length).found closes hard
    exact ⟨ts, r, fault, rest, placed, begun, fun _ c' s alike => stumbles c'.rest.length alike⟩

/-- A report that stops nothing. -/
theorem report_bind {t : Token} {fault : GrammarFault} {f : Unit → Parser β}
    {g : Nat → Unit → Parser β} (soft : (Diagnostic.grammar t fault).isSoft = true)
    (hf : Foresees V (f ()) fun n => g n ()) :
    Foresees V (report t fault >>= f) fun n => report t fault >>= g n := by
  have reads : ∀ c : Cursor, Reads [] [.grammar t fault] c
      { c with faults := c.faults.push (.grammar t fault) } := fun c => ⟨rfl, rfl, by simp⟩
  have sound : Sound .relaxed (fun ts _ _ => ts = []) (report t fault) := by
    refine ⟨?_, ?_⟩
    · rintro c c' a - ran
      cases ran
      exact ⟨[], _, reads c, fun _ => rfl⟩
    · rintro c c' x - ran
      cases ran
  have still : Foresees V (report t fault) fun _ => report t fault := by
    refine ⟨sound.any, fun _ => sound.any, ?_, ?_⟩
    · intro c c₁ a ts _ ran _ n c' s alike
      cases ran
      have none : ts = [] := List.append_left_eq_self.1 alike.rest.symm
      subst none
      exact .inr ⟨_, rfl, alike.rest, alike.rest', alike.next, alike.closing, alike.nextId⟩
    · intro c x _ hard
      change List.find? _ (List.drop _ _) = _ at hard
      rw [(reads c).drop, List.find?_singleton, soft] at hard
      cases hard
  refine still.bind sound (fun _ => id) fun _ => hf.mono ?_
  rintro us begun ts rest rfl
  exact begun

/-! ## The steps that take tokens -/

theorem sound_acceptAny? (d : Dialect) (kinds : List TokenKind) :
    Sound d (fun ts found _ => (∃ t, found = some t ∧ ts = [t] ∧ t.kind ∈ kinds) ∨
      found = none ∧ ts = []) (acceptAny? kinds) := by
  suffices sound : Sound d _ (acceptAny? kinds >>= Pure.pure) by simpa using sound
  refine Sound.acceptAny?_bind (fun t ht => ?_) ?_
  · exact Sound.pure fun _ => .inl ⟨t, rfl, rfl, ht⟩
  · exact Sound.pure fun _ _ => .inr ⟨rfl, rfl⟩

theorem acceptAny? (kinds : List TokenKind) :
    Foresees V (acceptAny? kinds) fun _ => acceptAny? kinds := by
  refine ⟨(sound_acceptAny? _ kinds).any, fun _ => (sound_acceptAny? _ kinds).any, ?_, ?_⟩
  · intro c c₁ found ts _ ran _ n c' s alike
    rcases acceptAny?_cases kinds c with ⟨t, rest, same, among, taken⟩ | ⟨stops, skips⟩
    · cases taken.symm.trans ran
      obtain rfl : ts = [t] := by
        refine List.append_cancel_right (alike.rest.symm.trans same)
      exact .inr ⟨_, acceptAny?_of_mem alike.take.1 among, alike.take.2⟩
    · cases skips.symm.trans ran
      have none : ts = [] := List.append_left_eq_self.1 alike.rest.symm
      subst none
      have stops' : Stops kinds c'.rest := by rwa [Stops, alike.head]
      exact .inr ⟨c', acceptAny?_of_stops stops', alike⟩
  · intro c x _ hard
    rcases acceptAny?_cases kinds c with ⟨t, rest, same, among, taken⟩ | ⟨stops, skips⟩
    · rw [taken, firstHard, reported, (reads_one same).drop] at hard
      cases hard
    · rw [skips] at hard
      cases firstHard_pure.symm.trans hard

/-- After a choice of tokens: behind one of them, or with none of them. -/
theorem acceptAny?_bind {kinds : List TokenKind} {f : Option Token → Parser β}
    {g : Nat → Option Token → Parser β}
    (yes : ∀ t, Foresees (fun us => t.kind ∈ kinds → V (t :: us)) (f (some t)) fun n => g n (some t))
    (no : Foresees V (f none) fun n => g n none) :
    Foresees V (Parser.acceptAny? kinds >>= f) fun n => Parser.acceptAny? kinds >>= g n := by
  refine (acceptAny? kinds).bind (sound_acceptAny? _ kinds) (fun _ => id) fun found => ?_
  cases found with
  | some t =>
    refine (yes t).mono ?_
    rintro us begun ts rest (⟨t', same, rfl, among⟩ | ⟨same, -⟩)
    · cases same
      exact begun among
    · cases same
  | none =>
    refine no.mono ?_
    rintro us begun ts rest (⟨t', same, -⟩ | ⟨-, rfl⟩)
    · cases same
    · exact begun

theorem accept?_bind {kind : TokenKind} {f : Option Token → Parser β}
    {g : Nat → Option Token → Parser β}
    (yes : ∀ t, Foresees (fun us => t.kind = kind → V (t :: us)) (f (some t)) fun n => g n (some t))
    (no : Foresees V (f none) fun n => g n none) :
    Foresees V (accept? kind >>= f) fun n => accept? kind >>= g n := by
  refine acceptAny?_bind (fun t => (yes t).mono fun us begun among => begun ?_) no
  exact List.mem_singleton.1 among

theorem accept_bind {kind : TokenKind} {f : Bool → Parser β} {g : Nat → Bool → Parser β}
    (yes : ∀ t, Foresees (fun us => t.kind = kind → V (t :: us)) (f true) fun n => g n true)
    (no : Foresees V (f false) fun n => g n false) :
    Foresees V (accept kind >>= f) fun n => accept kind >>= g n := by
  simp only [accept, bind_assoc]
  refine accept?_bind (fun t => ?_) ?_
  · simpa using yes t
  · simpa using no

/-- A token that has to be there: what was taken so far could be continued. -/
theorem expect_bind {kind : TokenKind} {what : Expected} {f : Token → Parser β}
    {g : Nat → Token → Parser β} (begun : V [])
    (yes : ∀ t, Foresees (fun us => t.kind = kind → V (t :: us)) (f t) fun n => g n t) :
    Foresees V (expect kind what >>= f) fun n => expect kind what >>= g n := by
  simp only [expect, bind_assoc]
  refine accept?_bind (fun t => ?_) ?_
  · simpa using yes t
  · have stops : Foresees V (Parser.fail (.expected what) : Parser Token)
        fun _ => Parser.fail (.expected what) := fail (fun _ => rfl) begun
    refine stops.bind (G := fun _ _ _ => False) (Sound.fail fun _ => rfl) (fun _ => id) fun t => ?_
    exact (yes t).mono fun us _ ts rest never => never.elim

/-! ## Recovery -/

/-- Going on after a fault does not change what is reported first. -/
theorem firstHard_recovering {G : List Token → α → List Token → Prop} {p : Parser α} {c : Cursor}
    (sound : Sound .relaxed G p) (closes : c.closing.kind = .endOfSource) :
    firstHard c (recovering p c) = firstHard c (p c) := by
  unfold recovering
  cases ran : p c with
  | ok a c' => rfl
  | error halt c' =>
    cases halt with
    | exhausted => rfl
    | fault x =>
      obtain ⟨⟨ts, ds, reads⟩, -⟩ := sound.fault closes ran
      have pushed : (c'.faults.push x).toList.drop c.faults.size = ds ++ [x] := by
        rw [Array.toList_push, reads.faults, List.append_assoc, ← Array.length_toList,
          List.drop_left]
      rw [firstHard, firstHard, reported, reported, pushed, reads.drop]

/-- What is found before going on is found. -/
protected theorem recovering {p : Parser α} {q : Nat → Parser α} (h : Foresees V p q) :
    Foresees V (recovering p) fun n => recovering (q n) := by
  refine ⟨(Sound.recovering h.sound).any, fun n => (Sound.recovering (h.sounds n)).any, ?_, ?_⟩
  · intro c c₁ o ts closes ran soft n c' s alike
    rw [firstHard_recovering h.sound closes] at soft
    unfold recovering at ran ⊢
    cases first : p c with
    | ok a c₂ =>
      rw [first] at ran
      cases ran
      rcases h.again closes first soft n alike with ⟨c₃, gone⟩ | ⟨c₁', again, alike₁⟩
      · rw [gone]
        exact .inl ⟨c₃, rfl⟩
      · rw [again]
        exact .inr ⟨c₁', rfl, alike₁⟩
    | error halt c₂ =>
      rw [first] at ran soft
      cases halt with
      | exhausted => cases ran
      | fault x =>
        have hard : x.isSoft = false := (h.sound.fault closes first).2
        rw [firstHard, reported, List.find?_eq_none] at soft
        exact absurd (soft x (by simp)) (by simp [hard])
  · intro c x closes hard
    rw [firstHard_recovering h.sound closes] at hard
    obtain ⟨ts, r, fault, rest, placed, begun, stumbles⟩ := h.found closes hard
    refine ⟨ts, r, fault, rest, placed, begun, fun n c' s alike => ?_⟩
    refine (stumbles n alike).imp ?_ fun hard' => ?_
    · rintro ⟨c₁, gone⟩
      exact ⟨c₁, by rw [recovering, gone]⟩
    · rwa [firstHard_recovering (h.sounds n) (alike.closing ▸ closes)]

end Foresees

end ClassScript.Parser
