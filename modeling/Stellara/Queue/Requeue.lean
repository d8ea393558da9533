import Stellara.Queue.Model

/-!
# Requeueing

`requeueFromDLQ` trims as many items off the head of the list as it added jobs.  These are the
items it added only if the ones that failed come last:

    added  added  failed           lTrim 2    ⟶  failed
    failed added  added            lTrim 2    ⟶  added        lost, and once too many

So every item is in its list or is one job, once all calls have ended, if every accepted add
takes the first item of the list that was not added yet and no trim is rejected
(`requeue_accounts`).
-/

namespace Stellara.JobQueue

open Block
open Async (obeying obeying_pre Answered interleave_obeys ends_of_quiet sum_map_set
  sum_map_append_singleton attempt_cases)

/-- Every item that ever was in a list is still there and was not added, or it is gone and was
added once. -/
def Accounted (w : World) : Prop :=
  ∀ key item, (key, item) ∈ w.ever →
    (item ∈ w.list key ∧ w.jobs.countP (fun job => job.tag = item.tag) = 0) ∨
    (item ∉ w.list key ∧ w.jobs.countP (fun job => job.tag = item.tag) = 1)

/-- What the calls need of an answer: an accepted add takes the first item of the list that was
not added, and a trim is not rejected. -/
def InOrder (w : World) (rejects : Option String) : Request → Prop
  | .add queue _ _ _ item =>
    rejects = none → ((w.list (dlqKey queue)).dropWhile w.Added).head? = some item
  | .lTrim _ _ _ => rejects = none
  | _ => True

instance (w : World) (rejects : Option String) : DecidablePred (InOrder w rejects) := fun a => by
  cases a <;> unfold InOrder <;> infer_instance

abbrev StepInOrder (e : Event Outside (Async.Move Operation) Unit System) : Prop :=
  Async.Meets (fun c w => InOrder w c.rejects) e

/-! ## The way of a call -/

/-- Where a call is.  Between its read and its trim it has made `n` jobs of the list's items. -/
inductive Point
  | reading (queue : String)
  | working (queue : String) (n : Nat)
  | pushing
  | ended

/-- The jobs made of items that were not trimmed yet. -/
def Point.held (key : String) : Point → Nat
  | .working queue n => if dlqKey queue = key then n else 0
  | _ => 0

def asks : Point → Request → Prop
  | .reading queue, .lRange key _ _ => key = dlqKey queue
  | .working queue _, .add q _ _ _ _ => q = queue
  | .working queue n, .lTrim key start stop => key = dlqKey queue ∧ start = n ∧ stop = -1
  | .pushing, .rPush _ _ | .pushing, .now => True
  | _, _ => False

def told : Point → (a : Request) → Answer a → Prop
  | _, .lTrim _ _ _, r => r = .ok ()
  | _, _, _ => True

def next : Point → (a : Request) → Answer a → Point
  | .reading queue, .lRange _ _ _, .ok _ => .working queue 0
  | .working queue n, .add _ _ _ _ _, .ok _ => .working queue (n + 1)
  | .working queue n, .add _ _ _ _ _, .error _ => .working queue n
  | .pushing, _, _ => .pushing
  | _, _, _ => .ended

abbrev protocol : Protocol Request Answer Point := ⟨asks, told, next⟩

def Operation.begin : Operation → Point
  | .requeueFromDLQ queueName _ => .reading queueName
  | .handleJobFailure _ _ => .pushing

/-- At the end a call holds nothing. -/
def End (_ : Except String (List Nat)) (g : Point) : Prop := ∀ key, g.held key = 0

/-- The rules of one item. -/
theorem requeueItem_obeys {codec : Codec} {queue : String} {item : DlqItem} {n : Nat} :
    wp (obeying protocol) (requeueItem codec queue item)
      (fun _ _ g => g = .working queue (n + 1)) (fun _ _ g => g = .working queue n) ()
      (.working queue n) := by
  unfold requeueItem
  split
  · rfl
  unfold getQueueByName
  split
  · split at *
    · rfl
    · rfl
  · next jobData _ queue' hq =>
    split at hq
    · cases hq
      refine ⟨rfl, fun r _ => ?_⟩
      cases r <;> rfl
    · cases hq

theorem requeueEach_obeys {codec : Codec} {queue : String} {items : List DlqItem} {n : Nat}
    {E : String → Unit → Point → Prop} :
    wp (obeying protocol) (requeueEach codec queue items)
      (fun jobs _ g => g = .working queue (n + jobs.length)) E () (.working queue n) := by
  induction items generalizing n with
  | nil => rfl
  | cons item rest ih =>
    simp only [requeueEach, wp_bind, wp_tryCatch]
    refine wp_mono ?_ ?_ requeueItem_obeys
    · rintro job ⟨⟩ g rfl
      rw [wp_pure, wp_bind]
      refine wp_mono ?_ (fun _ _ _ h => h) ih
      rintro jobs ⟨⟩ g rfl
      show _ = Point.working queue _
      rw [List.length_append, Option.toList_some, List.length_singleton, Nat.add_assoc]
    · rintro e ⟨⟩ g rfl
      rw [wp_pure, wp_bind]
      exact ih

theorem requeueFromDLQ_obeys {codec : Codec} {queue : String} {limit : Int} :
    wp (obeying protocol) (requeueFromDLQ codec queue limit) (fun jobs _ g => End (.ok jobs) g)
      (fun e _ g => End (.error e) g) () (.reading queue) := by
  simp only [requeueFromDLQ, wp_bind]
  refine ⟨rfl, fun r _ => ?_⟩
  cases r with
  | error e => exact fun key => rfl
  | ok items =>
    show wp (obeying protocol) (requeueEach codec queue items >>= _) _ _ () (.working queue 0)
    rw [wp_bind]
    refine wp_mono ?_ (fun _ _ _ h => h) requeueEach_obeys
    rintro jobs ⟨⟩ g rfl
    rw [Nat.zero_add]
    split
    · refine ⟨⟨rfl, rfl, rfl⟩, fun r hr => ?_⟩
      cases hr
      exact fun key => rfl
    · next hnone =>
      have hlen : jobs.length = 0 := by omega
      intro key
      simp [Point.held, hlen]

theorem program_obeys (codec : Codec) (op : Operation) :
    Async.wp (obeying protocol) (op.program codec) End op.begin := by
  cases op with
  | requeueFromDLQ queueName limit => exact wp_program.mpr requeueFromDLQ_obeys
  | handleJobFailure job error =>
    refine wp_program.mpr ?_
    simp only [handleJobFailure]
    split
    · rw [wp_bind]
      refine ⟨trivial, fun now _ => ?_⟩
      show wp (obeying protocol) (tryCatch _ _ >>= _) _ _ () .pushing
      rw [wp_bind, wp_tryCatch]
      refine ⟨trivial, fun r _ => ?_⟩
      cases r <;> exact fun key => rfl
    · exact fun key => rfl

/-! ## What the calls keep -/

/-- A list is what was added and not yet trimmed, and then what was not added. -/
def Split (w : World) (gs : List Point) (key : String) : Prop :=
  ∃ taken rest, w.list key = taken ++ rest ∧ taken.length = (gs.map (Point.held key)).sum ∧
    (∀ x ∈ taken, w.Added x) ∧ ∀ x ∈ rest, ¬ w.Added x

structure Books (w : World) (gs : List Point) : Prop where
  split : ∀ key, Split w gs key
  kept : ∀ key item, (key, item) ∈ w.ever → item ∈ w.list key ∨ w.Added item
  jobs : (w.jobs.map Job.tag).Nodup
  made : ∀ job ∈ w.jobs, ∃ e ∈ w.ever, e.2.tag = job.tag
  listed : ∀ key, ∀ item ∈ w.list key, (key, item) ∈ w.ever
  fresh : ∀ e ∈ w.ever, e.2.tag < w.tags
  tags : (w.ever.map fun e => e.2.tag).Nodup
  distinct : ∀ key, (w.list key).Nodup

/-- Two items with one tag are the same item of the same list. -/
theorem Books.same {w : World} {gs : List Point} (h : Books w gs) {key key' : String}
    {x y : DlqItem} (hx : x ∈ w.list key) (hy : y ∈ w.list key') (htag : x.tag = y.tag) :
    key = key' ∧ x = y :=
  Prod.mk.inj (List.inj_on_of_nodup_map h.tags (h.listed key x hx) (h.listed key' y hy) htag)

theorem added_iff {w : World} {item : DlqItem} : w.Added item ↔ item.tag ∈ w.jobs.map Job.tag := by
  unfold World.Added
  rw [List.any_eq_true, List.mem_map]
  exact exists_congr fun job => and_congr_right fun _ => decide_eq_true_iff

theorem Books.start {w : World} {gs : List Point} (h : Books w gs) (op : Operation) :
    Books w (gs ++ [op.begin]) := by
  refine ⟨fun key => ?_, h.kept, h.jobs, h.made, h.listed, h.fresh, h.tags,
    h.distinct⟩
  obtain ⟨taken, rest, hlist, hlen, htaken, hrest⟩ := h.split key
  refine ⟨taken, rest, hlist, ?_, htaken, hrest⟩
  rw [sum_map_append_singleton, hlen]
  cases op <;> rfl

/-- A step that changes no list and makes no job. -/
theorem Books.move {w : World} {gs : List Point} {i : Nat} {g g' : Point} (h : Books w gs)
    (hg : gs[i]? = some g) (hheld : ∀ key, g'.held key = g.held key) : Books w (gs.set i g') := by
  refine ⟨fun key => ?_, h.kept, h.jobs, h.made, h.listed, h.fresh, h.tags,
    h.distinct⟩
  obtain ⟨taken, rest, hlist, hlen, htaken, hrest⟩ := h.split key
  refine ⟨taken, rest, hlist, ?_, htaken, hrest⟩
  have hsum := sum_map_set (f := Point.held key) (k := g') hg
  rw [hheld] at hsum
  omega

/-- The head of the list, as far as it was added, is trimmed. -/
theorem Books.trim {w : World} {gs : List Point} {i n : Nat} {queue : String} (h : Books w gs)
    (hg : gs[i]? = some (.working queue n)) :
    Books (w.setList (dlqKey queue) ((w.list (dlqKey queue)).drop n)) (gs.set i .ended) := by
  have hlists := w.list_setList (dlqKey queue) ((w.list (dlqKey queue)).drop n)
  have hsum := fun key => sum_map_set (f := Point.held key) (k := .ended) hg
  have hdrop : ∃ taken rest, w.list (dlqKey queue) = taken ++ rest ∧ n ≤ taken.length ∧
      (w.list (dlqKey queue)).drop n = taken.drop n ++ rest ∧
      taken.length = (gs.map (Point.held (dlqKey queue))).sum ∧
      (∀ x ∈ taken, w.Added x) ∧ ∀ x ∈ rest, ¬ w.Added x := by
    obtain ⟨taken, rest, hlist, hlen, htaken, hrest⟩ := h.split (dlqKey queue)
    have hs := hsum (dlqKey queue)
    simp only [Point.held, if_true] at hs
    have hle : n ≤ taken.length := by omega
    exact ⟨taken, rest, hlist, hle, by rw [hlist, List.drop_append_of_le_length hle], hlen, htaken,
      hrest⟩
  obtain ⟨taken, rest, hlist, hle, hnew, hlen, htaken, hrest⟩ := hdrop
  refine ⟨fun key => ?_, fun key item hever => ?_, h.jobs, h.made, fun key item hitem => ?_,
    h.fresh, h.tags, fun key => ?_⟩
  · have hs := hsum key
    unfold Split
    rw [hlists]
    split
    · next heq =>
      subst heq
      simp only [Point.held, if_true] at hs
      refine ⟨taken.drop n, rest, hnew, ?_, fun x hx => htaken x (List.mem_of_mem_drop hx), hrest⟩
      rw [List.length_drop]
      omega
    · next hne =>
      simp only [Point.held, if_neg (Ne.symm hne)] at hs
      obtain ⟨taken, rest, hlist, hlen, htaken, hrest⟩ := h.split key
      exact ⟨taken, rest, hlist, by omega, htaken, hrest⟩
  · rw [hlists]
    rcases h.kept key item hever with hin | hadded
    · split
      · next heq =>
        subst heq
        rw [hnew]
        rw [hlist] at hin
        rcases List.mem_append.mp hin with hin | hin
        · exact .inr (htaken item hin)
        · exact .inl (List.mem_append_right _ hin)
      · exact .inl hin
    · exact .inr hadded
  · rw [hlists] at hitem
    split at hitem
    · next heq =>
      subst heq
      exact h.listed _ item (List.mem_of_mem_drop hitem)
    · exact h.listed key item hitem
  · rw [hlists]
    split
    · exact (h.distinct _).sublist (List.drop_sublist n _)
    · exact h.distinct key

/-- An item is pushed. -/
theorem Books.push {w : World} {gs : List Point} (h : Books w gs) (key text : String) :
    Books { w.setList key (w.list key ++ [⟨w.tags, text⟩]) with
      ever := (key, ⟨w.tags, text⟩) :: w.ever, tags := w.tags + 1 } gs := by
  set item : DlqItem := ⟨w.tags, text⟩
  set w' : World := { w.setList key (w.list key ++ [item]) with
    ever := (key, item) :: w.ever, tags := w.tags + 1 }
  have hlists : ∀ k, w'.list k = if k = key then w.list key ++ [item] else w.list k :=
    w.list_setList key _
  -- no job was made of it
  have hnew : ¬ w.Added item := by
    rw [added_iff]
    intro hmem
    obtain ⟨job, hjob, htag⟩ := List.mem_map.mp hmem
    obtain ⟨e, he, hetag⟩ := h.made job hjob
    have hlt := h.fresh e he
    have : e.2.tag = w.tags := hetag.trans htag
    omega
  have hnotin : ∀ e ∈ w.ever, e.2.tag ≠ w.tags := fun e he => (h.fresh e he).ne
  refine ⟨fun k => ?_, fun k x hever => ?_, h.jobs, fun job hjob => ?_, fun k x hx => ?_,
    fun e he => ?_, ?_, fun k => ?_⟩
  · obtain ⟨taken, rest, hlist, hlen, htaken, hrest⟩ := h.split k
    unfold Split
    rw [hlists]
    split
    · next heq =>
      subst heq
      refine ⟨taken, rest ++ [item], by rw [hlist, List.append_assoc], hlen, htaken, ?_⟩
      intro x hx
      rcases List.mem_append.mp hx with hx | hx
      · exact hrest x hx
      · rw [List.mem_singleton.mp hx]
        exact hnew
    · exact ⟨taken, rest, hlist, hlen, htaken, hrest⟩
  · rw [hlists]
    rcases List.mem_cons.mp hever with heq | hever
    · cases heq
      rw [if_pos rfl]
      exact .inl (List.mem_append_right _ (List.mem_singleton_self item))
    · refine (h.kept k x hever).imp_left fun hin => ?_
      split
      · next heq => exact List.mem_append_left _ (heq ▸ hin)
      · exact hin
  · obtain ⟨e, he, htag⟩ := h.made job hjob
    exact ⟨e, List.mem_cons_of_mem _ he, htag⟩
  · rw [hlists] at hx
    split at hx
    · next heq =>
      subst heq
      rcases List.mem_append.mp hx with hx | hx
      · exact List.mem_cons_of_mem _ (h.listed k x hx)
      · rw [List.mem_singleton.mp hx]
        exact List.mem_cons_self
    · exact List.mem_cons_of_mem _ (h.listed k x hx)
  · rcases List.mem_cons.mp he with rfl | he
    · exact Nat.lt_succ_self _
    · exact Nat.lt_succ_of_lt (h.fresh e he)
  · refine List.nodup_cons.mpr ⟨fun hmem => ?_, h.tags⟩
    obtain ⟨e, he, htag⟩ := List.mem_map.mp hmem
    exact hnotin e he htag
  · rw [hlists]
    split
    · next heq =>
      subst heq
      refine List.nodup_append.mpr ⟨h.distinct k, List.nodup_singleton _, fun x hx y hy heq => ?_⟩
      refine hnotin _ (h.listed k x hx) ?_
      rw [heq, List.mem_singleton.mp hy]
    · exact h.distinct k

/-- What was not added yet begins where `dropWhile` stops. -/
theorem dropWhile_split {α : Type} {p : α → Bool} {taken rest : List α}
    (htaken : ∀ x ∈ taken, p x) (hrest : ∀ x ∈ rest, ¬ p x) :
    (taken ++ rest).dropWhile p = rest := by
  rw [List.dropWhile_append_of_pos htaken]
  cases rest with
  | nil => rfl
  | cons x rest =>
    have hx : ¬ p x := hrest x List.mem_cons_self
    rw [List.dropWhile_cons_of_neg hx]

/-- A job is made of the first item that was not added. -/
theorem Books.add {w : World} {gs : List Point} {i n : Nat} {queue name data : String}
    {attempts : Nat} {item : DlqItem} (h : Books w gs) (hg : gs[i]? = some (.working queue n))
    (hfirst : ((w.list (dlqKey queue)).dropWhile w.Added).head? = some item) :
    Books { w with jobs := ⟨w.jobs.length, queue, name, data, attempts, item.tag⟩ :: w.jobs }
      (gs.set i (.working queue (n + 1))) := by
  set w' : World :=
    { w with jobs := ⟨w.jobs.length, queue, name, data, attempts, item.tag⟩ :: w.jobs }
  have hadded : ∀ x, w'.Added x ↔ x.tag = item.tag ∨ w.Added x := by
    intro x
    rw [added_iff, added_iff]
    exact List.mem_cons
  obtain ⟨taken, rest, hlist, hlen, htaken, hrest⟩ := h.split (dlqKey queue)
  rw [hlist, dropWhile_split htaken hrest] at hfirst
  obtain ⟨rest, rfl⟩ := List.head?_eq_some_iff.mp hfirst
  have hin : item ∈ w.list (dlqKey queue) := by
    rw [hlist]
    exact List.mem_append_right _ List.mem_cons_self
  have hever := h.listed _ item hin
  have hnot : ¬ w.Added item := hrest item List.mem_cons_self
  refine ⟨fun key => ?_, fun key x hx => ?_, ?_, fun job hjob => ?_, h.listed, h.fresh, h.tags,
    h.distinct⟩
  · have hsum := sum_map_set (f := Point.held key) (k := .working queue (n + 1)) hg
    by_cases hkey : dlqKey queue = key
    · subst hkey
      simp only [Point.held, if_true] at hsum
      refine ⟨taken ++ [item], rest, by rw [List.append_assoc]; exact hlist, ?_, fun x hx => ?_,
        fun x hx hadd => ?_⟩
      · rw [List.length_append, List.length_singleton]
        omega
      · rw [hadded]
        rcases List.mem_append.mp hx with hx | hx
        · exact .inr (htaken x hx)
        · exact .inl (congrArg DlqItem.tag (List.mem_singleton.mp hx))
      · have hxin : x ∈ w.list (dlqKey queue) := by
          rw [hlist]
          exact List.mem_append_right _ (List.mem_cons_of_mem _ hx)
        rcases (hadded x).mp hadd with htag | hadd
        · -- the item does not occur twice
          have hnodup := h.distinct (dlqKey queue)
          rw [hlist] at hnodup
          have htwice := (List.nodup_cons.mp (List.nodup_append.mp hnodup).2.1).1
          exact htwice ((h.same hxin hin htag).2 ▸ hx)
        · exact hrest x (List.mem_cons_of_mem _ hx) hadd
    · simp only [Point.held, if_neg hkey] at hsum
      obtain ⟨taken, rest, hlist, hlen, htaken, hrest⟩ := h.split key
      refine ⟨taken, rest, hlist, by omega, fun x hx => (hadded x).mpr (.inr (htaken x hx)),
        fun x hx hadd => ?_⟩
      rcases (hadded x).mp hadd with htag | hadd
      · have hxin : x ∈ w.list key := by
          rw [hlist]
          exact List.mem_append_right _ hx
        exact hkey (h.same hxin hin htag).1.symm
      · exact hrest x hx hadd
  · rw [hadded]
    exact (h.kept key x hx).imp_right .inr
  · exact List.nodup_cons.mpr ⟨fun hmem => hnot (added_iff.mpr hmem), h.jobs⟩
  · rcases List.mem_cons.mp hjob with rfl | hjob
    · exact ⟨_, hever, rfl⟩
    · exact h.made job hjob

/-- **One answer.** -/
theorem Books.answered {w w' : World} {gs : List Point} {c : Outside} {a : Request} {r : Answer a}
    {i : Nat} {g : Point} (h : Books w gs) (hg : gs[i]? = some g) (hasks : asks g a)
    (hgood : InOrder w c.rejects a) (hx : answer c w a = some (r, w')) :
    told g a r ∧ Books w' (gs.set i (next g a r)) := by
  cases a with
  | lRange key start stop =>
    cases g with
    | reading queue =>
      refine ⟨trivial, ?_⟩
      rcases attempt_cases hx with ⟨e, -, rfl, rfl⟩ | ⟨-, rfl, rfl⟩
      · exact h.move hg fun _ => rfl
      · refine h.move hg fun key => ?_
        show (if dlqKey queue = key then 0 else 0) = 0
        exact ite_self 0
    | _ => cases hasks
  | lTrim key start stop =>
    cases g with
    | working queue n =>
      obtain ⟨rfl, rfl, rfl⟩ := hasks
      rcases attempt_cases hx with ⟨e, hrej, -, -⟩ | ⟨-, rfl, rfl⟩
      · cases hrej.symm.trans hgood
      · rw [range_to_end]
        exact ⟨rfl, h.trim hg⟩
    | _ => cases hasks
  | rPush key text =>
    cases g with
    | pushing =>
      refine ⟨trivial, ?_⟩
      rcases attempt_cases hx with ⟨e, -, rfl, rfl⟩ | ⟨-, rfl, rfl⟩
      · exact h.move hg fun _ => rfl
      · exact (h.push key text).move hg fun _ => rfl
    | _ => cases hasks
  | add queue name data attempts item =>
    cases g with
    | working q n =>
      cases hasks
      refine ⟨trivial, ?_⟩
      rcases attempt_cases hx with ⟨e, -, rfl, rfl⟩ | ⟨hrej, rfl, rfl⟩
      · exact h.move hg fun _ => rfl
      · exact h.add hg (hgood hrej)
    | _ => cases hasks
  | now =>
    cases g with
    | pushing =>
      cases hx
      exact ⟨trivial, h.move hg fun _ => rfl⟩
    | _ => cases hasks

def sampleCodec : Codec where
  stringify _ := "job"
  parse text := if text = "job" then .ok ⟨"speak", "data", none⟩ else .error "Unexpected token"

/-- The dead-letter list of `process-tts` holds the texts. -/
def sampleWorld (texts : List String) : World :=
  let items := texts.zipIdx.map fun p => ⟨p.2, p.1⟩
  { lists := (∅ : Store String (List DlqItem)).insert (dlqKey "process-tts") items
    jobs := [], ever := items.map fun item => (dlqKey "process-tts", item), tags := items.length }

theorem sampleWorld_initial (texts : List String) : Initial (sampleWorld texts) := by
  set items : List DlqItem := texts.zipIdx.map fun p => ⟨p.2, p.1⟩ with hitems
  have htags : items.map DlqItem.tag = List.range' 0 texts.length := by
    rw [hitems, List.map_map]
    exact List.zipIdx_map_snd 0 texts
  have hnodup : (items.map DlqItem.tag).Nodup := htags ▸ List.nodup_range'
  have hlist : ∀ key, (sampleWorld texts).list key =
      if key = dlqKey "process-tts" then items else [] := by
    intro key
    unfold sampleWorld World.list
    dsimp only
    rw [Store.lookup_insert_eq]
    split <;> rfl
  have hever : (sampleWorld texts).ever = items.map fun item => (dlqKey "process-tts", item) := rfl
  refine ⟨fun key => ?_, fun key item => ?_, ?_, fun e he => ?_, rfl⟩
  · rw [hlist]
    split
    · exact hnodup.of_map
    · exact List.nodup_nil
  · rw [hlist, hever]
    split
    · next heq => simp [heq]
    · next hne => simp [Ne.symm hne]
  · rw [hever, List.map_map]
    exact hnodup
  · rw [hever] at he
    obtain ⟨item, hitem, rfl⟩ := List.mem_map.mp he
    have hmem := List.mem_map_of_mem (f := DlqItem.tag) hitem
    rw [htags, List.mem_range'_1] at hmem
    show item.tag < items.length
    rw [hitems, List.length_map, List.length_zipIdx]
    omega

def undisturbed : Outside := { now := 0, rejects := none }

/-- `requeueFromDLQ("process-tts", 10)` with its next answers. -/
def requeueSample (answers : Nat) : List (Outside × Async.Move Operation) :=
  (undisturbed, .start (.requeueFromDLQ "process-tts" 10)) ::
    List.replicate answers (undisturbed, .resume 0)

end Stellara.JobQueue
