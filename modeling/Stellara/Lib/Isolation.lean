import Stellara.Lib.Protocol

/-!
# Runs with and without some of the programs

Some of the programs of an interleaving are left out of a run: their starts and all their answers.
If no answer to one of them concerns what the others see of the world, and the others get the same
answers where they see the same, then what remains of the run is a run, and the others see the same
at its end (`interleave_without`):

    run            t₀ ── a ── u ── b ── u ── u ── c ──▶ t
    without u      t₀ ── a ─────── b ──────────── c ──▶ t'

What is seen is a relation `rel` of the two worlds.  An answer may differ between the two runs where
the program that gets it goes on in the same way (`Blind`), which is asked of its first request only.
-/

namespace Async

variable {A : Type} {R : A → Type} {α γ σ Op C : Type}

/-! ## What remains of a run -/

/-- How many of the first `i` have `p`. -/
def rank (p : Op → Bool) (ops : List Op) (i : Nat) : Nat := (ops.take i).countP p

/-- What stands beside the elements with `p`. -/
def among {δ : Type} (p : Op → Bool) : List Op → List δ → List δ
  | op :: ops, x :: xs => if p op then x :: among p ops xs else among p ops xs
  | _, _ => []

/-- The moves of the programs with `p`, which are alone now. -/
def remaining (p : Op → Bool) :
    List (Event C (Move Op) Unit (System A R α σ)) → List (C × Move Op)
  | [] => []
  | e :: tr =>
    match e.call with
    | .start op => if p op then (e.env, .start op) :: remaining p tr else remaining p tr
    | .resume i =>
      if (started tr)[i]?.any p then (e.env, .resume (rank p (started tr) i)) :: remaining p tr
      else remaining p tr

section Among

variable {δ : Type} {p : Op → Bool}

theorem among_append {ops : List Op} {xs : List δ} (hlen : ops.length = xs.length) (op : Op)
    (x : δ) : among p (ops ++ [op]) (xs ++ [x]) = among p ops xs ++ if p op then [x] else [] := by
  induction ops generalizing xs with
  | nil =>
    obtain rfl := List.length_eq_zero_iff.mp hlen.symm
    rfl
  | cons o ops ih =>
    cases xs with
    | nil => cases hlen
    | cons y xs =>
      have := ih (Nat.succ.inj hlen)
      simp only [List.cons_append, among, this]
      split <;> rfl

theorem rank_cons_succ {op : Op} {ops : List Op} {i : Nat} :
    rank p (op :: ops) (i + 1) = if p op then rank p ops i + 1 else rank p ops i := by
  unfold rank
  rw [List.take_succ_cons, List.countP_cons]
  split <;> rfl

theorem among_getElem? {ops : List Op} {xs : List δ} {i : Nat} {op : Op} {x : δ}
    (hop : ops[i]? = some op) (hp : p op) (hx : xs[i]? = some x) :
    (among p ops xs)[rank p ops i]? = some x := by
  induction ops generalizing xs i with
  | nil => cases hop
  | cons o ops ih =>
    cases xs with
    | nil => cases hx
    | cons y xs =>
      cases i with
      | zero =>
        cases hop
        cases hx
        rw [among, if_pos hp]
        rfl
      | succ i =>
        have hthis := ih (i := i) hop hx
        rw [among, rank_cons_succ]
        split
        · rw [List.getElem?_cons_succ]
          exact hthis
        · exact hthis

theorem among_set {ops : List Op} {xs : List δ} {i : Nat} {op : Op} (hop : ops[i]? = some op)
    (hp : p op) (x : δ) : among p ops (xs.set i x) = (among p ops xs).set (rank p ops i) x := by
  induction ops generalizing xs i with
  | nil => cases hop
  | cons o ops ih =>
    cases xs with
    | nil => rfl
    | cons y xs =>
      cases i with
      | zero =>
        cases hop
        rw [List.set_cons_zero, among, among, if_pos hp, if_pos hp]
        rfl
      | succ i =>
        have hthis := @ih xs i hop
        rw [List.set_cons_succ, among, among, rank_cons_succ]
        split
        · rw [hthis, List.set_cons_succ]
        · exact hthis

theorem among_set_of_not {ops : List Op} {xs : List δ} {i : Nat} {op : Op}
    (hop : ops[i]? = some op) (hp : p op = false) (x : δ) :
    among p ops (xs.set i x) = among p ops xs := by
  induction ops generalizing xs i with
  | nil => cases hop
  | cons o ops ih =>
    cases xs with
    | nil => rfl
    | cons y xs =>
      cases i with
      | zero =>
        cases hop
        rw [List.set_cons_zero, among, among, if_neg (by rw [hp]; exact Bool.false_ne_true),
          if_neg (by rw [hp]; exact Bool.false_ne_true)]
      | succ i =>
        rw [List.set_cons_succ, among, among, @ih xs i hop]

end Among

/-! ## What remains is a run -/

/-- After two answers with `D` to its first request, the program goes on in the same way. -/
def Blind (D : γ → (a : A) → R a → R a → Prop) (g : γ) : Async A R α → Prop
  | done _ => True
  | await a k => ∀ r r', D g a r r' → k r' = k r

variable {program : Op → Async A R α} {valid : Op → Prop}
  {answer : C → σ → (a : A) → Option (R a × σ)} {init : σ → Prop}
  {tr : List (Event C (Move Op) Unit (System A R α σ))} {t : System A R α σ}

/-- `m` has reached `t'` by what remains of the run `tr` to `t`, whose tasks are at `gs`. -/
structure Remains (m : Machine C (Move Op) Unit Unit (System A R α σ)) (P : Protocol A R γ)
    (E : α → γ → Prop) (D : γ → (a : A) → R a → R a → Prop) (p : Op → Bool) (side : γ → Bool)
    (tr : List (Event C (Move Op) Unit (System A R α σ))) (t : System A R α σ) (gs : List γ)
    (tr' : List (Event C (Move Op) Unit (System A R α σ))) (t' : System A R α σ) : Prop where
  tasks : List.Forall₂ (fun q g => wp (obeying P) q E g ∧ Blind D g q) t.tasks gs
  sides : gs.map side = (started tr).map p
  run : Run m tr' t'
  calls : tr'.map (fun e => (e.env, e.call)) = remaining p tr
  among : t'.tasks = among p (started tr) t.tasks

section Remains

variable {P : Protocol A R γ} {b : Op → γ} {E : α → γ → Prop} {p : Op → Bool} {side : γ → Bool}
  {D : γ → (a : A) → R a → R a → Prop} {gs : List γ} {g : γ}
  {tr' : List (Event C (Move Op) Unit (System A R α σ))} {t' : System A R α σ} {c : C}

theorem Remains.start {op : Op}
    (h : Remains (interleave program valid answer init) P E D p side tr t gs tr' t')
    (hv : valid op) (hprogram : wp (obeying P) (program op) E (b op))
    (hblind : Blind D (b op) (program op)) (hbegin : side (b op) = p op) :
    ∃ tr'' t'', Remains (interleave program valid answer init) P E D p side
      (⟨c, .start op, (), t, { t with tasks := t.tasks ++ [program op] }⟩ :: tr)
      { t with tasks := t.tasks ++ [program op] } (gs ++ [b op]) tr'' t'' ∧ t''.world = t'.world := by
  have hlen : (started tr).length = t.tasks.length := by
    rw [h.tasks.length_eq, ← List.length_map (f := side), h.sides, List.length_map]
  have htasks := List.rel_append h.tasks (.cons ⟨hprogram, hblind⟩ .nil)
  have hsides : (gs ++ [b op]).map side = (started tr ++ [op]).map p := by
    rw [List.map_append, List.map_append, h.sides, List.map_singleton, List.map_singleton, hbegin]
  have hamong := among_append (p := p) hlen op (program op)
  by_cases hp : p op
  · rw [if_pos hp, ← h.among] at hamong
    refine ⟨⟨c, .start op, (), t', { t' with tasks := t'.tasks ++ [program op] }⟩ :: tr',
      { t' with tasks := t'.tasks ++ [program op] }, ⟨htasks, hsides, ?_, ?_, hamong.symm⟩, rfl⟩
    · exact .commit h.run hv (fun _ _ => Nat.le_refl _) rfl
    · rw [List.map_cons, h.calls]
      exact (if_pos hp).symm
  · rw [if_neg hp, List.append_nil, ← h.among] at hamong
    exact ⟨tr', t', ⟨htasks, hsides, h.run, h.calls.trans (if_neg hp).symm, hamong.symm⟩, rfl⟩

/-- A task moves on in the run: the points of all, and the program that it runs. -/
theorem Remains.moves {i : Nat} {a : A} {k : R a → Async A R α} {r : R a}
    (h : Remains (interleave program valid answer init) P E D p side tr t gs tr' t')
    (hlater : ∀ g a r a' s s', ¬ D (P.next g a r) a' s s')
    (hside : ∀ g a r, side (P.next g a r) = side g) (hg : gs[i]? = some g)
    (hnext : wp (obeying P) (k r) E (P.next g a r)) :
    List.Forall₂ (fun q g => wp (obeying P) q E g ∧ Blind D g q) (t.tasks.set i (k r))
        (gs.set i (P.next g a r)) ∧
      (gs.set i (P.next g a r)).map side = (started tr).map p ∧
      ∃ op, (started tr)[i]? = some op ∧ p op = side g := by
  have hblind : Blind D (P.next g a r) (k r) := by
    cases k r with
    | done => trivial
    | await a' k' => exact fun s s' hD => absurd hD (hlater g a r a' s s')
  refine ⟨forall₂_set h.tasks i ⟨hnext, hblind⟩, (map_set_of_eq hg (hside g a r)).trans h.sides, ?_⟩
  have hflag : ((started tr).map p)[i]? = some (side g) := by
    rw [← h.sides, List.getElem?_map, hg]
    rfl
  rw [List.getElem?_map] at hflag
  exact Option.map_eq_some_iff.mp hflag

end Remains

/-- **What remains of a run** when the programs without `p` are left out. -/
theorem interleave_without {P : Protocol A R γ} {b : Op → γ} {E : α → γ → Prop}
    {J : σ → List γ → Prop} {Good : Event C (Move Op) Unit (System A R α σ) → Prop}
    {p : Op → Bool} {side : γ → Bool} {D : γ → (a : A) → R a → R a → Prop} {rel : σ → σ → Prop}
    (hprogram : ∀ op, valid op → wp (obeying P) (program op) E (b op))
    (hblind : ∀ op, valid op → Blind D (b op) (program op))
    (hlater : ∀ g a r a' s s', ¬ D (P.next g a r) a' s s')
    (hbegin : ∀ op, side (b op) = p op) (hside : ∀ g a r, side (P.next g a r) = side g)
    (h0 : ∀ s, init s → J s [] ∧ rel s s)
    (hstart : ∀ e gs op, Good e → e.call = .start op → J e.before.world gs →
      J e.before.world (gs ++ [b op]))
    (hstep : ∀ e gs i a r g, Good e → Answered answer e i a r → gs[i]? = some g → P.asks g a →
      J e.before.world gs → P.told g a r ∧ J e.after.world (gs.set i (P.next g a r)))
    (hleft : ∀ e gs i a r g w, Good e → Answered answer e i a r → gs[i]? = some g → P.asks g a →
      J e.before.world gs → side g = false → rel e.before.world w → rel e.after.world w)
    (hstays : ∀ e gs i a r g w, Good e → Answered answer e i a r → gs[i]? = some g → P.asks g a →
      J e.before.world gs → side g = true → rel e.before.world w →
      ∃ r' w', answer e.env w a = some (r', w') ∧ rel e.after.world w' ∧ (r' = r ∨ D g a r r'))
    (h : Run (interleave program valid answer init) tr t) (hgood : ∀ e ∈ tr, Good e) :
    ∃ tr' t', Run (interleave program valid answer init) tr' t' ∧
      tr'.map (fun e => (e.env, e.call)) = remaining p tr ∧ rel t.world t'.world := by
  -- the points of all tasks, and the run that remains so far
  have key : ∃ gs tr' t', J t.world gs ∧ rel t.world t'.world ∧
      Remains (interleave program valid answer init) P E D p side tr t gs tr' t' := by
    induction h with
    | @start s h =>
      obtain ⟨hJ, hrel⟩ := h0 s.world h.1
      refine ⟨[], [], s, hJ, hrel, ?_, rfl, .start h, rfl, ?_⟩
      · rw [h.2]
        exact .nil
      · rw [h.2]
        rfl
    | @commit tr s s' c move u h hv _ hx ih =>
      rw [List.forall_mem_cons] at hgood
      obtain ⟨gs, tr', t', hJ, hrel, hrem⟩ := ih hgood.2
      cases move with
      | start op =>
        have hJ' := hstart ⟨c, .start op, u, s, s'⟩ gs op hgood.1 rfl hJ
        obtain rfl := exec_start hx
        obtain ⟨tr'', t'', hrem', hworld⟩ :=
          hrem.start (c := c) hv (hprogram op hv) (hblind op hv) (hbegin op)
        exact ⟨gs ++ [b op], tr'', t'', hJ', hworld ▸ hrel, hrem'⟩
      | resume i =>
        obtain ⟨a, k, r, w, hi, ha, rfl⟩ := exec_resume hx
        obtain ⟨g, hg, hthis, hblind⟩ := exists_of_getElem? hrem.tasks hi
        have hans : Answered answer (Event.mk c (Move.resume i : Move Op) u s
            ⟨w, s.tasks.set i (k r)⟩) i a r :=
          ⟨rfl, by simp only [System.awaited, hi], ha⟩
        obtain ⟨htold, hJ'⟩ := hstep _ gs i a r g hgood.1 hans hg hthis.1 hJ
        obtain ⟨htasks, hsides, op, hop, hpop⟩ := hrem.moves hlater hside hg (hthis.2 r htold)
        cases hp : p op with
        | false =>
          refine ⟨gs.set i (P.next g a r), tr', t', hJ', ?_, htasks, hsides, hrem.run, ?_, ?_⟩
          · exact hleft _ gs i a r g t'.world hgood.1 hans hg hthis.1 hJ (hpop ▸ hp) hrel
          · refine hrem.calls.trans (if_neg ?_).symm
            rw [hop, Option.any_some, hp]
            exact Bool.false_ne_true
          · exact hrem.among.trans (among_set_of_not hop hp (k r)).symm
        | true =>
          obtain ⟨r', w', ha', hrel', hsame⟩ := hstays _ gs i a r g t'.world hgood.1 hans hg
            hthis.1 hJ (hpop ▸ hp) hrel
          have hk : k r' = k r := by
            rcases hsame with rfl | hD
            · rfl
            · exact hblind r r' hD
          have hi' : t'.tasks[rank p (started tr) i]? = some (await a k) := by
            rw [hrem.among]
            exact among_getElem? hop hp hi
          refine ⟨gs.set i (P.next g a r), ⟨c, .resume (rank p (started tr) i), (), t',
            ⟨w', t'.tasks.set (rank p (started tr) i) (k r)⟩⟩ :: tr',
            ⟨w', t'.tasks.set (rank p (started tr) i) (k r)⟩, hJ', hrel', htasks, hsides, ?_, ?_, ?_⟩
          · refine .commit hrem.run trivial (fun _ _ => Nat.le_refl _) ?_
            simp only [interleave, hi', ha', hk]
          · rw [List.map_cons, hrem.calls]
            refine (if_pos ?_).symm
            rw [hop, Option.any_some, hp]
          · show t'.tasks.set _ _ = among p (started tr) (s.tasks.set i (k r))
            rw [among_set hop hp, hrem.among]
  obtain ⟨gs, tr', t', -, hrel, hrem⟩ := key
  exact ⟨tr', t', hrem.run, hrem.calls, hrel⟩

end Async
