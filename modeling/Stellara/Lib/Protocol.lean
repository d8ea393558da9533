import Stellara.Lib.Async

/-!
# Protocols of interleaved programs

A `Protocol` says of one program what it may ask at each point of its way, what it can be told,
and where an answer leads.  That a program obeys it is a matter of the program alone:

    wp (obeying P) (program op) End (begin op)

In an interleaving, what is shared is an invariant `J` of the world and of the points `gs` that
all tasks have reached.  Of an answer given to a task at `g` one shows that it can be told at `g`
and that it keeps `J` when the task moves on to `P.next g`; then `J` holds in every state, every
task is where `gs` says, and one that is done is at an end (`interleave_obeys`).
-/

/-- The way of a program: what it may ask at a point, what it can be told, and what follows. -/
structure Protocol (A : Type) (R : A → Type) (γ : Type) where
  asks : γ → A → Prop
  told : γ → (a : A) → R a → Prop
  next : γ → (a : A) → R a → γ

/-- At `g` every request with `G` may be asked, and leads nowhere. -/
def Protocol.Neutral {A : Type} {R : A → Type} {γ : Type} (P : Protocol A R γ) (G : A → Prop)
    (g : γ) : Prop := ∀ a, G a → P.asks g a ∧ ∀ r, P.next g a r = g

namespace Async

variable {A : Type} {R : A → Type} {α β γ σ : Type}

/-- The rules of a protocol. -/
def obeying (P : Protocol A R γ) : Rules A R γ where
  pre a Q g := P.asks g a ∧ ∀ r, P.told g a r → Q r (P.next g a r)
  mono h h' := ⟨h'.1, fun r hr => h r _ (h'.2 r hr)⟩

@[simp] theorem obeying_pre {P : Protocol A R γ} {a : A} {Q : R a → γ → Prop} {g : γ} :
    (obeying P).pre a Q g ↔ P.asks g a ∧ ∀ r, P.told g a r → Q r (P.next g a r) := Iff.rfl

/-- A program whose requests are all neutral stays where it is. -/
theorem wp_obeying_of_keeping {P : Protocol A R γ} {G : A → Prop} {Q : α → Prop} {p : Async A R α}
    {g : γ} (hneutral : P.Neutral G g)
    (h : wp (keeping G fun _ _ => True) p (fun x _ => Q x) ()) :
    wp (obeying P) p (fun x g' => Q x ∧ g' = g) g := by
  induction p with
  | done x => exact ⟨h, rfl⟩
  | await a k ih =>
    obtain ⟨hasks, hnext⟩ := hneutral a h.1
    refine ⟨hasks, fun r _ => ?_⟩
    dsimp only
    rw [hnext r]
    exact ih r (h.2 r trivial)

/-- A program whose result says what it was. -/
def labelled {Op : Type} (program : Op → Async A R α) (op : Op) : Async A R (Op × α) :=
  program op >>= fun x => done (op, x)

@[simp] theorem wp_labelled {Op : Type} {program : Op → Async A R α} {op : Op} {T : Rules A R σ}
    {Q : Op × α → σ → Prop} {s : σ} :
    wp T (labelled program op) Q s ↔ wp T (program op) (fun x s => Q (op, x) s) s := by
  unfold labelled
  rw [wp_bind]
  rfl

/-- Where every program may be started. -/
theorem Move.starts_of_true {Op : Type} (move : Move Op) : move.Starts fun _ => True := by
  cases move <;> trivial

/-- Nothing is under way. -/
def System.Quiet (t : System A R α σ) : Prop := ∀ p ∈ t.tasks, ∃ x, p = done x

instance : (p : Async A R α) → Decidable (∃ x, p = done x)
  | done x => isTrue ⟨x, rfl⟩
  | await _ _ => isFalse (by rintro ⟨_, h⟩; cases h)

instance (t : System A R α σ) : Decidable t.Quiet :=
  inferInstanceAs (Decidable (∀ p ∈ t.tasks, ∃ x, p = done x))

/-- In this step task `i` is answered `r` to the request `a`. -/
structure Answered {Op C : Type} (answer : C → σ → (a : A) → Option (R a × σ))
    (e : Event C (Move Op) Unit (System A R α σ)) (i : Nat) (a : A) (r : R a) : Prop where
  call : e.call = .resume i
  awaited : e.before.awaited i = some a
  answer : answer e.env e.before.world a = some (r, e.after.world)

/-- The request answered in this step, if it is one, meets `P` in the world it finds. -/
def Meets {Op C : Type} (P : C → σ → A → Prop)
    (e : Event C (Move Op) Unit (System A R α σ)) : Prop :=
  match e.call with
  | .start _ => True
  | .resume i => ∀ a, e.before.awaited i = some a → P e.env e.before.world a

instance {Op C : Type} (P : C → σ → A → Prop) [∀ c w, DecidablePred (P c w)] :
    DecidablePred (Meets P : Event C (Move Op) Unit (System A R α σ) → Prop) := fun e => by
  unfold Meets
  split <;> infer_instance

/-- A request is answered `x` and leads to `w'`, or is rejected and changes nothing. -/
def attempt {ε : Type} (rejects : Option ε) (x : α) (w w' : σ) : Except ε α × σ :=
  match rejects with
  | some e => (.error e, w)
  | none => (.ok x, w')

theorem attempt_cases {ε : Type} {rejects : Option ε} {x : α} {w v w' : σ} {r : Except ε α}
    (h : some (attempt rejects x w v) = some (r, w')) :
    (∃ e, rejects = some e ∧ r = .error e ∧ w' = w) ∨ (rejects = none ∧ r = .ok x ∧ w' = v) := by
  unfold attempt at h
  split at h
  · next e => cases h; exact .inl ⟨e, rfl, rfl, rfl⟩
  · cases h; exact .inr ⟨rfl, rfl, rfl⟩

section Interleave

variable {Op C : Type} {program : Op → Async A R α} {valid : Op → Prop}
  {answer : C → σ → (a : A) → Option (R a × σ)} {init : σ → Prop}
  {tr : List (Event C (Move Op) Unit (System A R α σ))} {t : System A R α σ}

theorem Answered.meets {e : Event C (Move Op) Unit (System A R α σ)} {i : Nat} {a : A} {r : R a}
    {P : C → σ → A → Prop} (h : Answered answer e i a r) (hP : Meets P e) :
    P e.env e.before.world a := by
  unfold Meets at hP
  rw [h.call] at hP
  exact hP a h.awaited

/-- Where task `i` is. -/
theorem exists_of_getElem? {δ : Type} {rel : δ → γ → Prop} {xs : List δ} {gs : List γ} {i : Nat}
    {x : δ} (hat : List.Forall₂ rel xs gs) (h : xs[i]? = some x) :
    ∃ g, gs[i]? = some g ∧ rel x g := by
  obtain ⟨hlt, rfl⟩ := List.getElem?_eq_some_iff.mp h
  have hlt' : i < gs.length := hat.length_eq ▸ hlt
  exact ⟨gs[i], List.getElem?_eq_getElem hlt', List.Forall₂.get hat hlt hlt'⟩

/-- When one task moves on, the others are where they were. -/
theorem forall₂_set {δ : Type} {rel : δ → γ → Prop} {xs : List δ} {gs : List γ} {x : δ} {g : γ}
    (hat : List.Forall₂ rel xs gs) (i : Nat) (h : rel x g) :
    List.Forall₂ rel (xs.set i x) (gs.set i g) := by
  induction hat generalizing i with
  | nil => exact .nil
  | cons hx hat ih =>
    cases i with
    | zero => exact .cons h hat
    | succ i => exact .cons hx (ih i)

/-- What all points show is the same while the one that moves on shows the same. -/
theorem map_set_of_eq {δ : Type} {f : γ → δ} {gs : List γ} {i : Nat} {g k : γ}
    (hg : gs[i]? = some g) (h : f k = f g) : (gs.set i k).map f = gs.map f := by
  obtain ⟨hlt, rfl⟩ := List.getElem?_eq_some_iff.mp hg
  rw [List.map_set, h, ← List.map_set, List.set_getElem_self]

/-- **Interleaved programs that obey a protocol**, with an invariant that may speak of where
each of them was started: the new task is the last one. -/
theorem interleave_obeys_from {P : Protocol A R γ} {b : Op → γ} {E : α → γ → Prop}
    {J : List (Event C (Move Op) Unit (System A R α σ)) → σ → List γ → Prop}
    {Good : Event C (Move Op) Unit (System A R α σ) → Prop}
    (hprogram : ∀ op, valid op → wp (obeying P) (program op) E (b op))
    (h0 : ∀ s, init s → J [] s [])
    (hstart : ∀ tr e gs op, valid op → Good e → e.call = .start op →
      e.after.world = e.before.world → e.before.tasks.length = gs.length → J tr e.before.world gs →
      J (e :: tr) e.before.world (gs ++ [b op]))
    (hstep : ∀ tr e gs i a r g, Good e → Answered answer e i a r →
      List.Forall₂ (wp (obeying P) · E) e.before.tasks gs → gs[i]? = some g → P.asks g a →
      J tr e.before.world gs → P.told g a r ∧ J (e :: tr) e.after.world (gs.set i (P.next g a r)))
    (h : Run (interleave program valid answer init) tr t) (hgood : ∀ e ∈ tr, Good e) :
    ∃ gs, J tr t.world gs ∧ List.Forall₂ (wp (obeying P) · E) t.tasks gs := by
  induction h with
  | @start s h =>
    refine ⟨[], h0 s.world h.1, ?_⟩
    rw [h.2]
    exact .nil
  | @commit tr s s' c move u h hv _ hx ih =>
    rw [List.forall_mem_cons] at hgood
    obtain ⟨gs, hJ, hat⟩ := ih hgood.2
    cases move with
    | start op =>
      have hs := exec_start hx
      refine ⟨gs ++ [b op], ?_, ?_⟩
      · have := hstart tr ⟨c, .start op, u, s, s'⟩ gs op hv hgood.1 rfl (by rw [hs]) hat.length_eq hJ
        rwa [hs] at this ⊢
      · rw [hs]
        exact List.rel_append hat (.cons (hprogram op hv) .nil)
    | resume i =>
      obtain ⟨a, k, r, w, hi, ha, rfl⟩ := exec_resume hx
      obtain ⟨g, hg, hthis⟩ := exists_of_getElem? hat hi
      have hans : Answered answer (Event.mk c (Move.resume i : Move Op) u s
          ⟨w, s.tasks.set i (k r)⟩) i a r :=
        ⟨rfl, by simp only [System.awaited, hi], ha⟩
      obtain ⟨htold, hJ'⟩ := hstep tr _ gs i a r g hgood.1 hans hat hg hthis.1 hJ
      exact ⟨gs.set i (P.next g a r), hJ', forall₂_set hat i (hthis.2 r htold)⟩

/-- **Interleaved programs that obey a protocol.** -/
theorem interleave_obeys {P : Protocol A R γ} {b : Op → γ} {E : α → γ → Prop}
    {J : List (Event C (Move Op) Unit (System A R α σ)) → σ → List γ → Prop}
    {Good : Event C (Move Op) Unit (System A R α σ) → Prop}
    (hprogram : ∀ op, valid op → wp (obeying P) (program op) E (b op))
    (h0 : ∀ s, init s → J [] s [])
    (hstart : ∀ tr s gs op e, valid op → e.call = .start op → J tr s gs →
      J (e :: tr) s (gs ++ [b op]))
    (hstep : ∀ tr e gs i a r g, Good e → Answered answer e i a r →
      List.Forall₂ (wp (obeying P) · E) e.before.tasks gs → gs[i]? = some g → P.asks g a →
      J tr e.before.world gs → P.told g a r ∧ J (e :: tr) e.after.world (gs.set i (P.next g a r)))
    (h : Run (interleave program valid answer init) tr t) (hgood : ∀ e ∈ tr, Good e) :
    ∃ gs, J tr t.world gs ∧ List.Forall₂ (wp (obeying P) · E) t.tasks gs :=
  interleave_obeys_from hprogram h0
    (fun tr e gs op hop _ hcall _ _ hJ => hstart tr e.before.world gs op e hop hcall hJ) hstep h
    hgood

/-- **Interleaved programs that ask only for what has `G`.** -/
theorem interleave_invariant {G : A → Prop} {J : σ → Prop}
    {Good : Event C (Move Op) Unit (System A R α σ) → Prop}
    (hprogram : ∀ op, valid op →
      wp (keeping G fun _ _ => True) (program op) (fun _ _ => True) ())
    (h0 : ∀ s, init s → J s)
    (hstep : ∀ e i a r, Good e → Answered answer e i a r → G a → J e.before.world →
      J e.after.world)
    (h : Run (interleave program valid answer init) tr t) (hgood : ∀ e ∈ tr, Good e) :
    J t.world := by
  let P : Protocol A R Unit := ⟨fun _ a => G a, fun _ _ _ => True, fun _ _ _ => ()⟩
  have hneutral : P.Neutral G () := fun a ha => ⟨ha, fun _ => rfl⟩
  obtain ⟨gs, hJ, -⟩ := interleave_obeys (J := fun _ w _ => J w) (P := P)
    (fun op hop => wp_obeying_of_keeping (Q := fun _ => True) hneutral (hprogram op hop)) h0
    (fun _ _ _ _ _ _ _ hJ => hJ)
    (fun _ e _ i a r _ hgood hans _ _ hasks hJ => ⟨trivial, hstep e i a r hgood hans hasks hJ⟩)
    h hgood
  exact hJ

/-- Where nothing is under way, every program is at an end. -/
theorem ends_of_quiet {P : Protocol A R γ} {End : α → γ → Prop} {gs : List γ}
    (hat : List.Forall₂ (wp (obeying P) · End) t.tasks gs) (hquiet : t.Quiet) :
    ∀ g ∈ gs, ∃ x, End x g := by
  intro g hg
  obtain ⟨i, hi⟩ := List.mem_iff_getElem?.mp hg
  obtain ⟨p, hp, hend⟩ := exists_of_getElem? hat.flip hi
  obtain ⟨x, rfl⟩ := hquiet p (List.mem_of_getElem? hp)
  exact ⟨x, hend⟩

end Interleave

/-! ## The programs that were started -/

section Started

variable {Op C : Type} {tr : List (Event C (Move Op) Unit (System A R α σ))}
  {e : Event C (Move Op) Unit (System A R α σ)}

/-- The programs that have been started, the first one first. -/
def started : List (Event C (Move Op) Unit (System A R α σ)) → List Op
  | [] => []
  | e :: tr =>
    match e.call with
    | .start op => started tr ++ [op]
    | .resume _ => started tr

theorem started_start {op : Op} (h : e.call = .start op) :
    started (e :: tr) = started tr ++ [op] := by rw [started, h]

theorem started_resume {i : Nat} (h : e.call = .resume i) : started (e :: tr) = started tr := by
  rw [started, h]

theorem mem_started {op : Op} (he : e ∈ tr) (h : e.call = .start op) : op ∈ started tr := by
  induction tr with
  | nil => cases he
  | cons e' tr ih =>
    rcases List.mem_cons.mp he with rfl | he
    · rw [started_start h]
      exact List.mem_append_right _ List.mem_cons_self
    · cases hcall : e'.call with
      | start op' =>
        rw [started_start hcall]
        exact List.mem_append_left _ (ih he)
      | resume i =>
        rw [started_resume hcall]
        exact ih he

/-- The earlier ones keep their number. -/
theorem getElem?_started_cons {i : Nat} {op : Op} (h : (started tr)[i]? = some op) :
    (started (e :: tr))[i]? = some op := by
  cases hcall : e.call with
  | start op' =>
    rw [started_start hcall, List.getElem?_append_left (List.getElem?_eq_some_iff.mp h).1, h]
  | resume j => rw [started_resume hcall, h]

end Started

/-! ## What no two tasks share -/

/-- No two points show the same value. -/
def Apart {κ : Type} (f : γ → Option κ) (gs : List γ) : Prop :=
  ∀ (i j : Nat) x y k, gs[i]? = some x → gs[j]? = some y → f x = some k → f y = some k → i = j

theorem Apart.nil {κ : Type} {f : γ → Option κ} : Apart f [] := by
  intro i j x y k hx
  cases hx

theorem Apart.append {κ : Type} {f : γ → Option κ} {gs : List γ} {g : γ} (h : Apart f gs)
    (hg : f g = none) : Apart f (gs ++ [g]) := by
  have hold : ∀ (i : Nat) x k, (gs ++ [g])[i]? = some x → f x = some k → gs[i]? = some x := by
    intro i x k hx hk
    by_cases hlt : i < gs.length
    · rwa [List.getElem?_append_left hlt] at hx
    · rw [List.getElem?_append_right (Nat.le_of_not_lt hlt)] at hx
      rw [List.mem_singleton.mp (List.mem_of_getElem? hx), hg] at hk
      cases hk
  exact fun i j x y k hx hy hfx hfy => h i j x y k (hold i x k hx hfx) (hold j y k hy hfy) hfx hfy

/-- A task that moves on shows what it has shown, or what no other shows. -/
theorem Apart.set {κ : Type} {f : γ → Option κ} {gs : List γ} {i : Nat} {g g' : γ} (h : Apart f gs)
    (hg : gs[i]? = some g)
    (hnew : ∀ k, f g' = some k → f g = some k ∨ ∀ x ∈ gs, f x ≠ some k) :
    Apart f (gs.set i g') := by
  have hold : ∀ (j : Nat) y k, (gs.set i g')[j]? = some y → f y = some k →
      (j = i ∧ y = g') ∨ (j ≠ i ∧ gs[j]? = some y) := by
    intro j y k hy hk
    by_cases hj : j = i
    · subst hj
      rw [List.getElem?_set_self (List.getElem?_eq_some_iff.mp hg).1] at hy
      exact .inl ⟨rfl, (Option.some.inj hy).symm⟩
    · rw [List.getElem?_set_ne (Ne.symm hj)] at hy
      exact .inr ⟨hj, hy⟩
  have hcross : ∀ (j : Nat) y k, gs[j]? = some y → f g' = some k → f y = some k → i = j := by
    intro j y k hy hk hyk
    rcases hnew k hk with hgk | hnone
    · exact h i j g y k hg hy hgk hyk
    · exact absurd hyk (hnone y (List.mem_of_getElem? hy))
  intro j l x y k hx hy hfx hfy
  rcases hold j x k hx hfx with ⟨rfl, rfl⟩ | ⟨-, hx'⟩ <;>
    rcases hold l y k hy hfy with ⟨rfl, rfl⟩ | ⟨-, hy'⟩
  · rfl
  · exact hcross l y k hy' hfx hfy
  · exact (hcross j x k hx' hfy hfx).symm
  · exact h j l x y k hx' hy' hfx hfy

/-! ## Sums over the points of all tasks -/

theorem sum_map_append_singleton {f : γ → Nat} {gs : List γ} {g : γ} :
    ((gs ++ [g]).map f).sum = (gs.map f).sum + f g := by
  rw [List.map_append, List.sum_append, List.map_singleton, List.sum_singleton]

/-- One task moves on. -/
theorem sum_map_set {f : γ → Nat} {gs : List γ} {i : Nat} {g k : γ} (h : gs[i]? = some g) :
    ((gs.set i k).map f).sum + f g = (gs.map f).sum + f k := by
  induction gs generalizing i with
  | nil => cases h
  | cons x gs ih =>
    cases i with
    | zero =>
      cases h
      simp only [List.set_cons_zero, List.map_cons, List.sum_cons]
      omega
    | succ i =>
      have := ih (i := i) h
      simp only [List.set_cons_succ, List.map_cons, List.sum_cons]
      omega

/-- What one point shows, one still shows after a task moved on, unless it was that task. -/
theorem exists_mem_set {f : γ → Prop} {gs : List γ} {i : Nat} {g : γ} (k : γ) (hg : gs[i]? = some g)
    (h : ∃ x ∈ gs, f x) : (∃ x ∈ gs.set i k, f x) ∨ f g := by
  obtain ⟨x, hx, hfx⟩ := h
  obtain ⟨j, hj⟩ := List.mem_iff_getElem?.mp hx
  by_cases hji : j = i
  · subst hji
    cases hg.symm.trans hj
    exact .inr hfx
  · refine .inl ⟨x, List.mem_of_getElem? (i := j) ?_, hfx⟩
    rw [List.getElem?_set_ne (Ne.symm hji)]
    exact hj

/-- A point after one task moved on is that task's, or it is another's and was there. -/
theorem of_mem_set {gs : List γ} {i : Nat} {g k x : γ} (hg : gs[i]? = some g)
    (hx : x ∈ gs.set i k) : x = k ∨ ∃ j, j ≠ i ∧ gs[j]? = some x := by
  obtain ⟨j, hj⟩ := List.mem_iff_getElem?.mp hx
  by_cases hji : j = i
  · subst hji
    rw [List.getElem?_set_self (List.getElem?_eq_some_iff.mp hg).1] at hj
    exact .inl (Option.some.inj hj).symm
  · rw [List.getElem?_set_ne (Ne.symm hji)] at hj
    exact .inr ⟨j, hji, hj⟩

/-- The point that a task moved on to. -/
theorem mem_set {gs : List γ} {i : Nat} {g : γ} (k : γ) (hg : gs[i]? = some g) :
    k ∈ gs.set i k :=
  List.mem_set (List.getElem?_eq_some_iff.mp hg).1 k

/-- What a task shows, its point counts. -/
theorem countP_le_sum_map {δ : Type} {rel : δ → γ → Prop} {q : δ → Bool} {f : γ → Nat}
    {xs : List δ} {gs : List γ} (hat : List.Forall₂ rel xs gs)
    (h : ∀ x g, rel x g → q x = true → 1 ≤ f g) : xs.countP q ≤ (gs.map f).sum := by
  induction hat with
  | nil => exact Nat.le_refl 0
  | @cons x g xs gs hx _ ih =>
    rw [List.countP_cons, List.map_cons, List.sum_cons]
    split
    · next hq =>
      have := h x g hx hq
      omega
    · omega

theorem le_sum_map {f : γ → Nat} {gs : List γ} {g : γ} (h : g ∈ gs) : f g ≤ (gs.map f).sum := by
  induction gs with
  | nil => cases h
  | cons x gs ih =>
    rw [List.map_cons, List.sum_cons]
    rcases List.mem_cons.mp h with rfl | h
    · omega
    · have := ih h
      omega

end Async

namespace Block

open Async (keeping)

variable {A : Type} {R : A → Type} {ε α β : Type} {G : A → Prop}

/-- Every request of the block has `G`, whatever is answered, and its result has `Q`. -/
def Keeps (G : A → Prop) (m : Block A R ε Unit α) (Q : α → Prop) : Prop :=
  wp (keeping G fun _ _ => True) m (fun x _ _ => Q x) (fun _ _ _ => True) () ()

namespace Keeps

variable {m : Block A R ε Unit α} {P Q : α → Prop}

theorem pure {x : α} (h : Q x) : Keeps G (Pure.pure x : Block A R ε Unit α) Q := h

theorem throw {e : ε} : Keeps G (Block.throw e : Block A R ε Unit α) Q := trivial

theorem request {a : A} {f : R a → Except ε α} (h : G a) (hQ : ∀ r x, f r = .ok x → Q x) :
    Keeps G (Block.request a f) Q := by
  refine ⟨h, fun r _ => ?_⟩
  show Ends _ _ (f r, ()) ()
  cases hr : f r with
  | error e => trivial
  | ok x => exact hQ r x hr

theorem bind {f : α → Block A R ε Unit β} {Q : β → Prop} (hm : Keeps G m P)
    (hf : ∀ x, P x → Keeps G (f x) Q) : Keeps G (m >>= f) Q := by
  unfold Keeps
  rw [wp_bind]
  exact wp_mono (fun x _ _ hx => hf x hx) (fun _ _ _ h => h) hm

theorem tryCatch {f : ε → Block A R ε Unit α} (hm : Keeps G m Q) (hf : ∀ e, Keeps G (f e) Q) :
    Keeps G (Block.tryCatch m f) Q := by
  unfold Keeps
  rw [wp_tryCatch]
  exact wp_mono (fun _ _ _ hx => hx) (fun e _ _ _ => hf e) hm

theorem program (h : Keeps G m Q) :
    Async.wp (keeping G fun _ _ => True) m.program (fun _ _ => True) () :=
  wp_program.mpr (wp_mono (fun _ _ _ _ => trivial) (fun _ _ _ _ => trivial) h)

/-- A block whose requests are all neutral stays where it is. -/
theorem obeys {γ : Type} {p : Protocol A R γ} {g : γ} (h : Keeps G m Q)
    (hneutral : p.Neutral G g) :
    wp (Async.obeying p) m (fun x _ g' => Q x ∧ g' = g) (fun _ _ g' => g' = g) () g := by
  refine Async.wp_mono ?_ (Async.wp_obeying_of_keeping (p := m ())
    (Q := fun r => ∀ x, r.1 = .ok x → Q x) hneutral (Async.wp_mono ?_ h))
  · rintro ⟨e | x, u⟩ g' ⟨hQ, hg'⟩
    · exact hg'
    · exact ⟨hQ x rfl, hg'⟩
  · rintro ⟨e | x, u⟩ _ hr y hy
    · cases hy
    · cases hy
      exact hr

end Keeps

/-! ## Blocks that keep an invariant -/

section Preserves

open Async (Rules)

variable {σ τ : Type} {T : Rules A R σ} {I E F : τ → σ → Prop} {m : Block A R ε τ α}

/-- The block keeps `I` of its object and the state, and has `E` of them when it throws. -/
def Preserves (T : Rules A R σ) (I E : τ → σ → Prop) (m : Block A R ε τ α) : Prop :=
  ∀ x s, I x s → wp T m (fun _ => I) (fun _ => E) x s

namespace Preserves

theorem pure {a : α} : Preserves T I E (Pure.pure a : Block A R ε τ α) := fun _ _ h => h

theorem throw {e : ε} (h : ∀ x s, I x s → E x s) :
    Preserves T I E (Block.throw e : Block A R ε τ α) := h

/-- A request after which `I` holds, whatever is answered. -/
theorem request {a : A} {f : R a → Except ε α} (hE : ∀ x s, I x s → E x s)
    (h : ∀ x s, I x s → T.pre a (fun _ s' => I x s') s) :
    Preserves T I E (Block.request a f : Block A R ε τ α) := by
  refine fun x s hI => T.mono (fun r s' hs => ?_) (h x s hI)
  show Ends _ _ (f r, x) s'
  cases f r with
  | error e => exact hE x s' hs
  | ok a => exact hs

theorem bind {f : α → Block A R ε τ β} (hm : Preserves T I E m)
    (hf : ∀ a, Preserves T I E (f a)) : Preserves T I E (m >>= f) := by
  intro x s hI
  rw [wp_bind]
  exact wp_mono (fun a x s h => hf a x s h) (fun _ _ _ h => h) (hm x s hI)

theorem tryCatch {f : ε → Block A R ε τ α} (hm : Preserves T I F m)
    (hf : ∀ e x s, F x s → wp T (f e) (fun _ => I) (fun _ => E) x s) :
    Preserves T I E (Block.tryCatch m f) := by
  intro x s hI
  rw [wp_tryCatch]
  exact wp_mono (fun _ _ _ h => h) (fun e x s h => hf e x s h) (hm x s hI)

end Preserves

end Preserves

end Block
