import Stellara.Lib.Machine

/-!
# Asynchronous programs

A program that awaits answers is a tree: it is done, or it awaits the answer to a request and
goes on from there.  Between two awaits nothing else runs.

    wp T (p >>= f) Q s  ↔  wp T p (fun x => wp T (f x) Q) s                     (wp_bind)

Here the rules `T` say of one request what must hold for an answer with a given property.  With
`answering f` they are what the world answers, and `wp` speaks about the runs of a program that
runs alone (`wp_answering`).  With `keeping G H` they ask every request to have `G` and promise
every answer to have `H`; then in every interleaving of such programs every request that is
answered has `G` (`interleave_keeps`).

A `Block` is a program that changes an object as it goes and may throw: the object is what it
has become by then, whichever way the block ends.
-/

/-- A program that awaits answers `R a` to requests `a`. -/
inductive Async (A : Type) (R : A → Type) (α : Type) : Type
  | done (x : α)
  | await (a : A) (k : R a → Async A R α)

namespace Async

variable {A : Type} {R : A → Type} {α β σ : Type}

protected def bind : Async A R α → (α → Async A R β) → Async A R β
  | done x, f => f x
  | await a k, f => await a fun r => (k r).bind f

instance : Monad (Async A R) where
  pure := done
  bind := Async.bind

/-! ## Weakest preconditions -/

/-- What one request needs for its answer, and the state then, to have a property. -/
structure Rules (A : Type) (R : A → Type) (σ : Type) where
  pre : (a : A) → (R a → σ → Prop) → σ → Prop
  mono : ∀ {a : A} {P P' : R a → σ → Prop} {s : σ}, (∀ r s, P r s → P' r s) → pre a P s →
    pre a P' s

/-- What a program needs for its result, and the state then, to have `Q`. -/
def wp (T : Rules A R σ) : Async A R α → (α → σ → Prop) → σ → Prop
  | done x, Q => Q x
  | await a k, Q => T.pre a fun r => wp T (k r) Q

variable {T : Rules A R σ} {p : Async A R α} {Q Q' : α → σ → Prop} {s : σ}

@[simp] theorem wp_done {x : α} : wp T (done x : Async A R α) Q s ↔ Q x s := Iff.rfl

@[simp] theorem wp_await {a : A} {k : R a → Async A R α} :
    wp T (await a k) Q s ↔ T.pre a (fun r => wp T (k r) Q) s := Iff.rfl

/-- **The rule of sequence.** -/
theorem wp_bind {f : α → Async A R β} {Q : β → σ → Prop} :
    wp T (p >>= f) Q = wp T p fun x => wp T (f x) Q := by
  show wp T (p.bind f) Q = _
  induction p with
  | done x => rfl
  | await a k ih =>
    show T.pre a _ = T.pre a _
    congr 1
    funext r
    exact ih r

/-- **The rule of consequence.** -/
theorem wp_mono (hQ : ∀ x s, Q x s → Q' x s) (h : wp T p Q s) : wp T p Q' s := by
  induction p generalizing s with
  | done x => exact hQ x s h
  | await a k ih => exact T.mono (fun r s hr => ih r hr) h

/-! ## Programs of other requests -/

section Embed

variable {B : Type} {S : B → Type} (f : A → B) (g : (a : A) → S (f a) → R a)

/-- The program, with each request `a` asked as `f a` and the answer read back by `g`. -/
def embed : Async A R α → Async B S α
  | done x => done x
  | await a k => await (f a) fun r => (k (g a r)).embed

/-- What the rules for the requests `f a` say of the requests `a`. -/
def Rules.along (T : Rules B S σ) : Rules A R σ where
  pre a P := T.pre (f a) fun r => P (g a r)
  mono {a _ _ _} h := T.mono fun r s => h (g a r) s

variable {f g}

/-- **The rule of embedded programs.** -/
theorem wp_embed {T : Rules B S σ} {p : Async A R α} {Q : α → σ → Prop} :
    wp T (p.embed f g) Q = wp (T.along f g) p Q := by
  induction p with
  | done x => rfl
  | await a k ih =>
    show T.pre (f a) _ = T.pre (f a) _
    congr 1
    funext r
    exact ih (g a r)

end Embed

/-! ## A program that runs alone -/

section Alone

variable {C : Type} (answer : C → σ → (a : A) → Option (R a × σ))

/-- The requests of `p` are answered under the circumstances `cs`, one after the other. -/
def run : Async A R α → List C → σ → Option (α × σ)
  | done x, [], s => some (x, s)
  | await a k, c :: cs, s =>
    match answer c s a with
    | some (r, s') => run (k r) cs s'
    | none => none
  | _, _, _ => none

/-- The rules of a world that gives any of its answers. -/
def answering : Rules A R σ where
  pre a P s := ∀ c r s', answer c s a = some (r, s') → P r s'
  mono hP h c r s' hx := hP r s' (h c r s' hx)

variable {answer}

@[simp] theorem answering_pre {a : A} {P : R a → σ → Prop} :
    (answering answer).pre a P s ↔ ∀ c r s', answer c s a = some (r, s') → P r s' := Iff.rfl

/-- **Runs alone** end as the weakest precondition says. -/
theorem wp_answering :
    wp (answering answer) p Q s ↔ ∀ cs x s', run answer p cs s = some (x, s') → Q x s' := by
  induction p generalizing s with
  | done x =>
    constructor
    · intro h cs y s' hx
      cases cs with
      | nil => cases hx; exact h
      | cons c cs => cases hx
    · exact fun h => h [] x s rfl
  | await a k ih =>
    constructor
    · intro h cs y s' hx
      cases cs with
      | nil => cases hx
      | cons c cs =>
        unfold run at hx
        split at hx
        · next r t ha => exact (ih r).mp (h c r t ha) cs y s' hx
        · cases hx
    · intro h c r t ha
      refine (ih r).mpr fun cs y s' hx => h (c :: cs) y s' ?_
      unfold run
      rw [ha]
      exact hx

/-- A world that answers every request under `c` lets every program end. -/
theorem exists_run {c : C} (h : ∀ s a, (answer c s a).isSome) (p : Async A R α) (s : σ) :
    ∃ n x s', run answer p (List.replicate n c) s = some (x, s') := by
  induction p generalizing s with
  | done x => exact ⟨0, x, s, rfl⟩
  | await a k ih =>
    obtain ⟨⟨r, t⟩, ha⟩ := Option.isSome_iff_exists.mp (h s a)
    obtain ⟨n, x, s', hn⟩ := ih r t
    refine ⟨n + 1, x, s', ?_⟩
    rw [List.replicate_succ]
    unfold run
    rw [ha]
    exact hn

/-- The answers under the circumstances with `P`. -/
def under (P : C → Prop) [DecidablePred P] (answer : C → σ → (a : A) → Option (R a × σ)) :
    C → σ → (a : A) → Option (R a × σ) :=
  fun c s a => if P c then answer c s a else none

theorem under_eq_some {P : C → Prop} [DecidablePred P] {c : C} {s : σ} {a : A} {r : R a × σ} :
    under P answer c s a = some r ↔ P c ∧ answer c s a = some r := by
  unfold under
  split <;> simp_all

theorem run_under {P : C → Prop} [DecidablePred P] {cs : List C} (hcs : ∀ c ∈ cs, P c) :
    run (under P answer) p cs s = run answer p cs s := by
  induction p generalizing cs s with
  | done x => cases cs <;> rfl
  | await a k ih =>
    cases cs with
    | nil => rfl
    | cons c cs =>
      rw [List.forall_mem_cons] at hcs
      unfold run under
      rw [if_pos hcs.1]
      split
      · exact ih _ hcs.2
      · rfl

/-- The answers, and whether all circumstances so far had `P`. -/
def flagged (P : C → Bool) (answer : C → σ → (a : A) → Option (R a × σ)) :
    C → σ × Bool → (a : A) → Option (R a × (σ × Bool)) :=
  fun c s a => (answer c s.1 a).map fun r => (r.1, r.2, s.2 && P c)

theorem flagged_eq_some {P : C → Bool} {c : C} {s s' : σ × Bool} {a : A} {r : R a} :
    flagged P answer c s a = some (r, s') ↔
      answer c s.1 a = some (r, s'.1) ∧ s'.2 = (s.2 && P c) := by
  unfold flagged
  rw [Option.map_eq_some_iff]
  constructor
  · rintro ⟨⟨r', t⟩, ha, heq⟩
    cases heq
    exact ⟨ha, rfl⟩
  · rintro ⟨ha, hflag⟩
    refine ⟨(r, s'.1), ha, ?_⟩
    rw [← hflag]

theorem run_flagged {P : C → Bool} {cs : List C} {b : Bool} :
    run (flagged P answer) p cs (s, b) =
      (run answer p cs s).map fun r => (r.1, r.2, b && cs.all P) := by
  induction p generalizing cs s b with
  | done x => cases cs <;> simp [run]
  | await a k ih =>
    cases cs with
    | nil => rfl
    | cons c cs =>
      have hstep : flagged P answer c (s, b) a =
          (answer c s a).map fun r => (r.1, r.2, b && P c) := rfl
      unfold run
      rw [hstep]
      cases answer c s a with
      | none => rfl
      | some r =>
        rw [Option.map_some]
        dsimp only
        rw [ih, List.all_cons, Bool.and_assoc]

end Alone

/-! ## Programs that run interleaved -/

/-- The rules that let a program make requests with `G` only and rely on answers with `H`. -/
def keeping (G : A → Prop) (H : (a : A) → R a → Prop) : Rules A R Unit where
  pre a P _ := G a ∧ ∀ r, H a r → P r ()
  mono hP h := ⟨h.1, fun r hr => hP r () (h.2 r hr)⟩

@[simp] theorem keeping_pre {G : A → Prop} {H : (a : A) → R a → Prop} {a : A}
    {P : R a → Unit → Prop} {u : Unit} :
    (keeping G H).pre a P u ↔ G a ∧ ∀ r, H a r → P r () := Iff.rfl

/-- Programs under way, and the world they share. -/
structure System (A : Type) (R : A → Type) (α σ : Type) where
  world : σ
  tasks : List (Async A R α)

/-- The request that task `i` awaits the answer of. -/
def System.awaited (s : System A R α σ) (i : Nat) : Option A :=
  match s.tasks[i]? with
  | some (await a _) => some a
  | _ => none

/-- One step: a program is started, or a task gets its answer and runs to its next await. -/
inductive Move (Op : Type)
  | start (op : Op)
  | resume (i : Nat)
deriving DecidableEq

/-- Only programs with `valid` are started. -/
def Move.Starts {Op : Type} (valid : Op → Prop) : Move Op → Prop
  | start op => valid op
  | resume _ => True

instance {Op : Type} (valid : Op → Prop) [DecidablePred valid] : DecidablePred (Move.Starts valid)
  | .start op => inferInstanceAs (Decidable (valid op))
  | .resume _ => isTrue trivial

/-- All interleavings of the programs of `Op`. -/
def interleave {Op C : Type} (program : Op → Async A R α) (valid : Op → Prop)
    (answer : C → σ → (a : A) → Option (R a × σ)) (init : σ → Prop) :
    Machine C (Move Op) Unit Unit (System A R α σ) where
  init s := init s.world ∧ s.tasks = []
  valid _ move := move.Starts valid
  -- the clocks of two servers need not agree
  clock _ := 0
  exec c move s :=
    match move with
    | .start op => .ok ((), { s with tasks := s.tasks ++ [program op] })
    | .resume i =>
      match s.tasks[i]? with
      | some (await a k) =>
        match answer c s.world a with
        | some (r, w) => .ok ((), ⟨w, s.tasks.set i (k r)⟩)
        | none => .error ()
      | _ => .error ()

/-- The rules that ask nothing and promise nothing. -/
abbrev anything : Rules A R Unit := keeping (fun _ => True) fun _ _ => True

/-- Two continuations that agree on every result make the same program. -/
theorem bind_congr {f g : α → Async A R β}
    (h : wp anything p (fun x _ => f x = g x) ()) : p >>= f = p >>= g := by
  show p.bind f = p.bind g
  induction p with
  | done x => exact h
  | await a k ih =>
    show await a _ = await a _
    congr 1
    funext r
    exact ih r (h.2 r trivial)

section Interleave

variable {Op C : Type} {program : Op → Async A R α} {valid : Op → Prop}
  {answer : C → σ → (a : A) → Option (R a × σ)} {init : σ → Prop}
  {tr : List (Event C (Move Op) Unit (System A R α σ))} {t t' : System A R α σ}

theorem exec_start {c : C} {op : Op} {u : Unit}
    (h : (interleave program valid answer init).exec c (.start op) t = .ok (u, t')) :
    t' = { t with tasks := t.tasks ++ [program op] } := by
  cases h
  rfl

theorem exec_resume {c : C} {i : Nat} {u : Unit}
    (h : (interleave program valid answer init).exec c (.resume i) t = .ok (u, t')) :
    ∃ a k r w, t.tasks[i]? = some (await a k) ∧ answer c t.world a = some (r, w) ∧
      t' = ⟨w, t.tasks.set i (k r)⟩ := by
  simp only [interleave] at h
  split at h
  · next a k hi =>
    split at h
    · next r w ha => cases h; exact ⟨a, k, r, w, hi, ha, rfl⟩
    · cases h
  · cases h

/-- **Interleavings.**  Programs that keep `G` when their answers have `H`, in a world whose
answers have `H`: every answered request has `G`, whatever the others do in between. -/
theorem interleave_keeps {G : A → Prop} {H : (a : A) → R a → Prop}
    (hprogram : ∀ op, valid op → wp (keeping G H) (program op) (fun _ _ => True) ())
    (hanswer : ∀ c s a r s', answer c s a = some (r, s') → H a r)
    (h : Run (interleave program valid answer init) tr t) :
    ∀ e ∈ tr, ∀ i, e.call = .resume i →
      ∃ a r, e.before.awaited i = some a ∧ G a ∧
        answer e.env e.before.world a = some (r, e.after.world) := by
  -- every task still keeps `G`
  have hkeep : ∀ {tr t}, Run (interleave program valid answer init) tr t →
      ∀ p ∈ t.tasks, wp (keeping G H) p (fun _ _ => True) () := by
    intro tr t h
    refine h.invariant (I := fun t => ∀ p ∈ t.tasks, wp (keeping G H) p (fun _ _ => True) ())
      ?_ ?_
    · rintro s ⟨-, htasks⟩ p hp
      rw [htasks] at hp
      cases hp
    · intro c move u s s' hv hI hx p hp
      cases move with
      | start op =>
        rw [exec_start hx] at hp
        rcases List.mem_append.mp hp with hp | hp
        · exact hI p hp
        · rw [List.mem_singleton.mp hp]
          exact hprogram op hv
      | resume i =>
        obtain ⟨a, k, r, w, hi, ha, rfl⟩ := exec_resume hx
        rcases List.mem_or_eq_of_mem_set hp with hp | rfl
        · exact hI p hp
        · exact (hI _ (List.mem_of_getElem? hi)).2 r (hanswer _ _ _ _ _ ha)
  rintro ⟨c, move, u, s, s'⟩ he i rfl
  obtain ⟨tr', hrun, -, hx⟩ := h.of_mem he
  obtain ⟨a, k, r, w, hi, ha, hs⟩ := exec_resume hx
  dsimp only at hrun hi ha hs ⊢
  refine ⟨a, r, by simp only [System.awaited, hi], ?_, by rw [ha, hs]⟩
  exact (hkeep hrun _ (List.mem_of_getElem? hi)).1

end Interleave

end Async

/-! ## Blocks -/

/-- A program on an object of type `τ` that may throw an `ε`. -/
def Block (A : Type) (R : A → Type) (ε τ α : Type) : Type := τ → Async A R (Except ε α × τ)

namespace Block

open Async

variable {A : Type} {R : A → Type} {ε τ υ α β σ : Type}

instance : Monad (Block A R ε τ) where
  pure a := fun x => .done (.ok a, x)
  bind m f := fun x => m x >>= fun r =>
    match r with
    | (.ok a, x) => f a x
    | (.error e, x) => .done (.error e, x)

def throw (e : ε) : Block A R ε τ α := fun x => .done (.error e, x)

/-- `try { m } catch (e) { h e }`. -/
def tryCatch (m : Block A R ε τ α) (h : ε → Block A R ε τ α) : Block A R ε τ α := fun x =>
  m x >>= fun r =>
    match r with
    | (.ok a, x) => .done (.ok a, x)
    | (.error e, x) => h e x

/-- The object as it is now. -/
def get : Block A R ε τ τ := fun x => .done (.ok x, x)

def set (x : τ) : Block A R ε τ Unit := fun _ => .done (.ok (), x)

def modify (f : τ → τ) : Block A R ε τ Unit := fun x => .done (.ok (), f x)

/-- A request whose answer may be a rejection. -/
def request (a : A) (f : R a → Except ε α) : Block A R ε τ α :=
  fun x => .await a fun r => .done (f r, x)

/-- A block on an object of its own. -/
def call (m : Block A R ε υ α) (y : υ) : Block A R ε τ α := fun x =>
  m y >>= fun r => .done (r.1, x)

/-- A block on a part of the object, which is put back whichever way the block ends. -/
def zoom (part : τ → Option υ) (put : υ → τ → τ) (m : Block A R ε υ Unit) : Block A R ε τ Unit :=
  fun x =>
    match part x with
    | some y => m y >>= fun r => .done (r.1, put r.2 x)
    | none => .done (.ok (), x)

/-- `try { m } finally { last }`. -/
def tryFinally (m : Block A R ε τ α) (last : Block A R ε τ Unit) : Block A R ε τ α := do
  let a ← tryCatch m fun e => do
    last
    throw e
  last
  pure a

/-- A block of other requests. -/
def embed {B : Type} {S : B → Type} (f : A → B) (g : (a : A) → S (f a) → R a)
    (m : Block A R ε τ α) : Block B S ε τ α := fun x => (m x).embed f g

/-- The program of a block. -/
def program (m : Block A R ε Unit α) : Async A R (Except ε α) := m () >>= fun r => .done r.1

variable (T : Rules A R σ)

/-- `Q` of the result, or `E` of what was thrown. -/
def Ends (Q : α → τ → σ → Prop) (E : ε → τ → σ → Prop) : Except ε α × τ → σ → Prop
  | (.ok a, x) => Q a x
  | (.error e, x) => E e x

/-- What a block needs to end with `Q`, or to throw with `E`. -/
def wp (m : Block A R ε τ α) (Q : α → τ → σ → Prop) (E : ε → τ → σ → Prop) (x : τ) (s : σ) : Prop :=
  Async.wp T (m x) (Ends Q E) s

variable {T} {m : Block A R ε τ α} {Q Q' : α → τ → σ → Prop} {E E' : ε → τ → σ → Prop} {x : τ}
  {s : σ}

@[simp] theorem wp_pure {a : α} : wp T (pure a) Q E x s ↔ Q a x s := Iff.rfl

@[simp] theorem wp_throw {e : ε} : wp T (throw e : Block A R ε τ α) Q E x s ↔ E e x s := Iff.rfl

@[simp] theorem wp_get {Q : τ → τ → σ → Prop} : wp T get Q E x s ↔ Q x x s := Iff.rfl

@[simp] theorem wp_set {y : τ} {Q : Unit → τ → σ → Prop} :
    wp T (set y) Q E x s ↔ Q () y s := Iff.rfl

@[simp] theorem wp_modify {f : τ → τ} {Q : Unit → τ → σ → Prop} :
    wp T (modify f) Q E x s ↔ Q () (f x) s := Iff.rfl

@[simp] theorem wp_request {a : A} {f : R a → Except ε α} :
    wp T (request a f) Q E x s ↔ T.pre a (fun r => Ends Q E (f r, x)) s := Iff.rfl

/-- A program that goes on from how a block ended. -/
theorem wp_ends {g : Except ε α × τ → Async A R β} {P : β → σ → Prop}
    (hok : ∀ a y, Async.wp T (g (.ok a, y)) P = Q a y)
    (herror : ∀ e y, Async.wp T (g (.error e, y)) P = E e y) :
    Async.wp T (m x >>= g) P s ↔ wp T m Q E x s := by
  have hends : (fun r => Async.wp T (g r) P) = Ends Q E := by
    funext ⟨r, y⟩
    cases r with
    | error e => exact herror e y
    | ok a => exact hok a y
  rw [Async.wp_bind, hends]
  rfl

@[simp] theorem wp_bind {f : α → Block A R ε τ β} {Q : β → τ → σ → Prop} :
    wp T (m >>= f) Q E x s ↔ wp T m (fun a => wp T (f a) Q E) E x s :=
  wp_ends (fun _ _ => rfl) (fun _ _ => rfl)

@[simp] theorem wp_tryCatch {h : ε → Block A R ε τ α} :
    wp T (tryCatch m h) Q E x s ↔ wp T m Q (fun e => wp T (h e) Q E) x s :=
  wp_ends (fun _ _ => rfl) (fun _ _ => rfl)

@[simp] theorem wp_call {n : Block A R ε υ α} {y : υ} :
    wp T (call n y) Q E x s ↔ wp T n (fun a _ => Q a x) (fun e _ => E e x) y s :=
  wp_ends (fun _ _ => rfl) (fun _ _ => rfl)

theorem wp_zoom {part : τ → Option υ} {put : υ → τ → τ} {n : Block A R ε υ Unit}
    {Q : Unit → τ → σ → Prop} :
    wp T (zoom part put n) Q E x s ↔
      match part x with
      | some y => wp T n (fun a y => Q a (put y x)) (fun e y => E e (put y x)) y s
      | none => Q () x s := by
  unfold wp zoom
  cases part x with
  | none => rfl
  | some y => exact wp_ends (fun _ _ => rfl) (fun _ _ => rfl)

@[simp] theorem wp_tryFinally {last : Block A R ε τ Unit} :
    wp T (tryFinally m last) Q E x s ↔
      wp T m (fun a => wp T last (fun _ => Q a) E)
        (fun e => wp T last (fun _ => E e) E) x s := by
  have hok : (fun a => wp T (last >>= fun _ => pure a) Q E) = fun a => wp T last (fun _ => Q a) E := by
    funext a y t
    exact propext wp_bind
  have herror : (fun e => wp T (last >>= fun _ => (throw e : Block A R ε τ α))
      (fun a => wp T (last >>= fun _ => pure a) Q E) E) =
      fun e => wp T last (fun _ => E e) E := by
    funext e y t
    exact propext wp_bind
  unfold tryFinally
  rw [wp_bind, wp_tryCatch, herror, hok]

@[simp] theorem wp_embed {B : Type} {S : B → Type} {f : A → B} {g : (a : A) → S (f a) → R a}
    {T : Rules B S σ} : wp T (m.embed f g) Q E x s ↔ wp (T.along f g) m Q E x s := by
  show Async.wp T ((m x).embed f g) _ s ↔ _
  rw [Async.wp_embed]
  rfl

theorem wp_mono (hQ : ∀ a x s, Q a x s → Q' a x s) (hE : ∀ e x s, E e x s → E' e x s)
    (h : wp T m Q E x s) : wp T m Q' E' x s := by
  refine Async.wp_mono ?_ h
  rintro ⟨e | a, y⟩ s h
  · exact hE e y s h
  · exact hQ a y s h

/-- Two blocks that agree after a first one are the same. -/
theorem bind_congr {f g : α → Block A R ε τ β}
    (h : wp anything m (fun a y _ => f a y = g a y) (fun _ _ _ => True) x ()) :
    (m >>= f) x = (m >>= g) x := by
  refine Async.bind_congr (Async.wp_mono ?_ h)
  rintro ⟨e | a, y⟩ _ hr
  · rfl
  · exact hr

/-- Two handlers that agree on what is thrown are the same. -/
theorem tryCatch_congr {f g : ε → Block A R ε τ α}
    (h : wp anything m (fun _ _ _ => True) (fun e y _ => f e y = g e y) x ()) :
    tryCatch m f x = tryCatch m g x := by
  refine Async.bind_congr (Async.wp_mono ?_ h)
  rintro ⟨e | a, y⟩ _ hr
  · exact hr
  · rfl

theorem wp_program {n : Block A R ε Unit α} {P : Except ε α → σ → Prop} :
    Async.wp T n.program P s ↔ wp T n (fun a _ => P (.ok a)) (fun e _ => P (.error e)) () s :=
  wp_ends (fun _ _ => rfl) (fun _ _ => rfl)

end Block
