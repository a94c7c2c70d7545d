import LeaseQueue.Store.Traffic
import LeaseQueue.Proofs.Store.Statements
/-!
# Calls that others come between

A step of a call changes the one row of its job, draws a place, makes a row in the
place that was drawn before, or leaves the table. Whatever steps of other calls come
between, the columns of a table agree with its records, and no two rows share a
place.
-/

namespace LeaseQueue

namespace Table

namespace Exchange

/-!
## What a step does
-/

/-- The place that a call has drawn for the row that it is about to make. -/
def place? : Exchange → Option Int
  | .create _ seq => some seq
  | _ => none

/-- A call that has drawn no place, chosen no row, and handed nothing out. -/
def Plain : Exchange → Prop
  | .create .. | .choose _ | .claim .. | .ended (.handed (some _)) => False
  | _ => True

theorem Plain.place?_eq {x : Exchange} (h : x.Plain) : x.place? = none := by
  cases x with
  | create record seq => exact h.elim
  | _ => rfl

/-- What a step of a call may do. -/
inductive Acts (lease : LeaseSettings) (now : Timestamp) :
    Exchange → Table × Int → Exchange → Table × Int → Prop where
  /-- It reads, or its statement matches no row. -/
  | looks {x y : Exchange} {s : Table × Int} : y.Plain → Acts lease now x s y s
  | rests (reply : Reply) (s : Table × Int) : Acts lease now (.ended reply) s (.ended reply) s
  | draws {record : Record} {t : Table} {last : Int} :
      Acts lease now (.weigh record none false) (t, last)
        (.create record (nextSeq last now)) (t, nextSeq last now)
  | makes {record : Record} {seq : Int} {t : Table} {last : Int} :
      t.select record.id = none →
      Acts lease now (.create record seq) (t, last) (.ended (.done (.ok ())))
        (t.append ⟨record.id, seq, Row.leaseOf record.status, 0, record.stored⟩, last)
  | replaces {record : Record} {seen : Status} {t : Table} {last : Int} {r : Row} :
      t.select record.id = some r → r.status.modCount = seen.modCount →
      r.status.owner = seen.owner → r.status.inProgress = seen.inProgress →
      Acts lease now (.replace record seen) (t, last) (.ended (.done (.ok ())))
        (t.change record.id (Row.withRecord record.stored), last)
  | chooses {asked : Timestamp} {t : Table} {last : Int} {r : Row} :
      r ∈ t.rows → mayHandOut (liveAfter lease asked) (dispatchAfter lease asked) r = true →
      Acts lease now (.choose asked) (t, last) (.claim r asked) (t, last)
  | claims {chosen : Row} {asked : Timestamp} {t : Table} {last : Int} {r : Row} :
      t.select chosen.id = some r → r.dispatchedMillis = chosen.dispatchedMillis →
      Acts lease now (.claim chosen asked) (t, last) (.ended (.handed (some r.record)))
        (t.change chosen.id (Row.handedAt asked.millis), last)
  | locks {id owner : String} {asked : Timestamp} {t : Table} {last : Int} {r : Row} :
      t.select id = some r →
      (!r.status.completed && !r.status.failed && (!r.status.inProgress ||
        r.status.owner = owner || r.leaseMillis ≤ liveAfter lease asked)) = true →
      r.status.modCount.toNat < maxColumn →
      Acts lease now (.turn false id owner asked) (t, last) (.ended (.done (.ok ())))
        (t.change id (lockRow true owner asked), last)
  | unlocks {id owner : String} {asked : Timestamp} {t : Table} {last : Int} {r : Row} :
      t.select id = some r → (r.status.inProgress && r.status.owner = owner) = true →
      r.status.modCount.toNat < maxColumn →
      Acts lease now (.turn true id owner asked) (t, last) (.ended (.done (.ok ())))
        (t.change id (lockRow false "" asked), last)

section

variable {lease : LeaseSettings} {now : Timestamp} {x y : Exchange} {s s' : Table × Int}

theorem acts_weigh (record : Record) (stored : Option Row) (lost : Bool) (s : Table × Int) :
    Acts lease now (.weigh record stored lost) s
      ((Exchange.weigh record stored lost).step lease now s).1
      ((Exchange.weigh record stored lost).step lease now s).2 := by
  cases stored with
  | none =>
      cases lost with
      | false => exact .draws
      | true => exact .looks trivial
  | some row =>
      simp only [step, settle]
      split <;> exact .looks trivial

theorem acts_step (x : Exchange) (s : Table × Int) :
    Acts lease now x s (x.step lease now s).1 (x.step lease now s).2 := by
  rcases s with ⟨t, last⟩
  cases x with
  | select record lost => exact .looks trivial
  | weigh record stored lost => exact acts_weigh record stored lost (t, last)
  | create record seq =>
      simp only [step]
      split
      · rename_i hcreate
        rcases create_cases hcreate with ⟨hnone, rfl⟩
        exact .makes hnone
      · exact .looks trivial
  | replace record seen =>
      simp only [step]
      split
      · rename_i hreplace
        rcases updateWhere_cases hreplace with ⟨r, hr, hseen, rfl⟩
        simp only [Bool.and_eq_true, decide_eq_true_eq] at hseen
        exact .replaces hr hseen.1.1 hseen.1.2 hseen.2
      · exact .looks trivial
  | choose asked =>
      simp only [step]
      split
      · rename_i hchosen
        rcases candidate_cases hchosen with ⟨hmem, hmay⟩
        exact .chooses hmem hmay
      · exact .looks trivial
  | claim chosen asked =>
      simp only [step]
      split
      · rename_i hclaim
        rcases claim_cases hclaim with ⟨r, hr, hseen, rfl, hafter⟩
        rw [hafter]
        exact Acts.claims (r := r) hr hseen
      · exact .looks trivial
  | turn releasing id owner asked =>
      cases releasing with
      | false =>
          simp only [step, Bool.false_eq_true, if_false]
          split
          · rename_i hlock
            rcases turnWhere_cases hlock with ⟨r, hr, hfree, hroom, rfl⟩
            exact .locks hr hfree hroom
          · exact .looks trivial
          · exact .looks trivial
      | true =>
          simp only [step, if_true]
          split
          · rename_i hunlock
            rcases turnWhere_cases hunlock with ⟨r, hr, hheld, hroom, rfl⟩
            exact .unlocks hr hheld hroom
          · exact .looks trivial
          · exact .looks trivial
  | explain releasing id => exact .looks trivial
  | ended reply => exact .rests reply (t, last)

end
end Exchange

namespace Traffic

/-!
## What an event does
-/

open Exchange

inductive Turns (lease : LeaseSettings) (s : Traffic) : Event → Traffic → Prop where
  | begins (request : Request) :
      Turns lease s (.begins request) { s with calls := s.calls ++ [request.begin] }
  | idles {i : Nat} {now : Timestamp} : s.calls[i]? = none → Turns lease s (.moves i now) s
  | acts {i : Nat} {now : Timestamp} {x y : Exchange} {t : Table} {last : Int} :
      s.calls[i]? = some x → Acts lease now x (s.table, s.lastSeq) y (t, last) →
      Turns lease s (.moves i now) ⟨t, last, s.calls.set i y⟩

variable {lease : LeaseSettings} {s s' : Traffic} {e : Event} {events : List Event}

theorem turns_handle (lease : LeaseSettings) (s : Traffic) (e : Event) :
    Turns lease s e (s.handle lease e) := by
  cases e with
  | begins request => exact .begins request
  | moves i now =>
      cases hcall : s.calls[i]? with
      | none =>
          simp only [handle, hcall]
          exact .idles hcall
      | some x =>
          simp only [handle, hcall]
          exact .acts hcall (acts_step x (s.table, s.lastSeq))

theorem run_nil (lease : LeaseSettings) (s : Traffic) : s.run lease [] = s :=
  rfl

theorem run_cons (lease : LeaseSettings) (s : Traffic) (e : Event) (rest : List Event) :
    s.run lease (e :: rest) = (s.handle lease e).run lease rest :=
  rfl

theorem run_append (lease : LeaseSettings) (s : Traffic) (first rest : List Event) :
    s.run lease (first ++ rest) = (s.run lease first).run lease rest :=
  List.foldl_append

theorem run_concat (lease : LeaseSettings) (s : Traffic) (first : List Event) (e : Event) :
    s.run lease (first ++ [e]) = (s.run lease first).handle lease e :=
  run_append lease s first [e]

theorem call_handle_of_ne {i : Nat} {x : Exchange} (hcall : s.calls[i]? = some x)
    (hother : ∀ now, e ≠ .moves i now) : (s.handle lease e).calls[i]? = some x := by
  have hlt : i < s.calls.length := (List.getElem?_eq_some_iff.mp hcall).1
  have hturns := turns_handle lease s e
  generalize s.handle lease e = s' at hturns
  cases hturns with
  | begins request =>
      show (s.calls ++ [_])[i]? = some x
      rw [List.getElem?_append_left hlt, hcall]
  | idles hnone => exact hcall
  | @acts j now y z t last hcall' hacts =>
      have hne : j ≠ i := by
        rintro rfl
        exact hother now rfl
      show (s.calls.set j z)[i]? = some x
      rw [List.getElem?_set_ne hne, hcall]

/-- Something holds of every step that a call makes in a run. -/
def EachMove (lease : LeaseSettings) (i : Nat) (P : Traffic → Timestamp → Prop) :
    Traffic → List Event → Prop
  | _, [] => True
  | s, e :: rest => (∀ now, e = .moves i now → P s now) ∧ EachMove lease i P (s.handle lease e) rest

/-- What holds of calls that begin, and goes on to hold while they make their steps. -/
theorem forall_calls_handle {P : Exchange → Prop} (h : ∀ x ∈ s.calls, P x)
    (hbegins : ∀ request, e = .begins request → P request.begin)
    (hsteps : ∀ now x, P x → P (x.step lease now (s.table, s.lastSeq)).1) :
    ∀ x ∈ (s.handle lease e).calls, P x := by
  cases e with
  | begins request =>
      intro x hx
      rcases List.mem_append.mp hx with hold | hnew
      · exact h x hold
      · exact List.mem_singleton.mp hnew ▸ hbegins request rfl
  | moves i now =>
      cases hcall : s.calls[i]? with
      | none =>
          simp only [handle, hcall]
          exact h
      | some x =>
          simp only [handle, hcall]
          intro y hy
          rcases List.mem_or_eq_of_mem_set hy with hold | rfl
          · exact h y hold
          · exact hsteps now x (h x (List.mem_of_getElem? hcall))

/-!
## Places
-/

def placeAt (s : Traffic) (i : Nat) : Option Int := s.calls[i]?.bind place?

theorem placeAt_begins (request : Request) (i : Nat) :
    placeAt { s with calls := s.calls ++ [request.begin] } i = s.placeAt i := by
  have hnone : request.begin.place? = none := by cases request <;> rfl
  unfold placeAt
  rw [List.getElem?_append]
  split
  · rfl
  · rename_i hlate
    have hlate' : s.calls[i]? = none := List.getElem?_eq_none (Nat.le_of_not_lt hlate)
    rw [hlate', List.getElem?_singleton]
    split
    · exact hnone
    · rfl

theorem placeAt_set {i j : Nat} {y : Exchange} {t : Table} {last : Int} {seq : Int}
    (h : placeAt ⟨t, last, s.calls.set i y⟩ j = some seq) :
    (j = i ∧ y.place? = some seq) ∨ (j ≠ i ∧ s.placeAt j = some seq) := by
  unfold placeAt at h
  rw [List.getElem?_set] at h
  by_cases hij : i = j
  · rw [if_pos hij] at h
    split at h
    · exact Or.inl ⟨hij.symm, h⟩
    · cases h
  · rw [if_neg hij] at h
    exact Or.inr ⟨Ne.symm hij, h⟩

def pending (s : Traffic) : List Int := s.calls.filterMap place?

theorem index_eq_of_length_filterMap_le {α β : Type} {f : α → Option β} {l : List α}
    (h : (l.filterMap f).length ≤ 1) {i j : Nat} {a b : β} (hi : l[i]?.bind f = some a)
    (hj : l[j]?.bind f = some b) : i = j := by
  induction l generalizing i j with
  | nil => cases hi
  | cons x l ih =>
      -- Where an element is kept, none of those after it is.
      have hlast : f x ≠ none → ∀ (k : Nat) (c : β), l[k]?.bind f ≠ some c := by
        intro hx k c hk
        rcases Option.ne_none_iff_exists'.mp hx with ⟨y, hy⟩
        rcases Option.bind_eq_some_iff.mp hk with ⟨z, hz, hc⟩
        have hmem : c ∈ l.filterMap f := List.mem_filterMap.mpr ⟨z, List.mem_of_getElem? hz, hc⟩
        rw [List.filterMap_cons_some hy, List.length_cons] at h
        have hpos := List.length_pos_of_mem hmem
        omega
      cases i with
      | zero =>
          cases j with
          | zero => rfl
          | succ j =>
              have hx : f x = some a := hi
              exact absurd hj (hlast (by rw [hx]; exact Option.some_ne_none a) j b)
      | succ i =>
          cases j with
          | zero =>
              have hx : f x = some b := hj
              exact absurd hi (hlast (by rw [hx]; exact Option.some_ne_none b) i a)
          | succ j =>
              have hle : (l.filterMap f).length ≤ 1 :=
                Nat.le_trans ((List.sublist_cons_self x l).filterMap f).length_le h
              exact congrArg Nat.succ (ih hle hi hj)

/-- The columns agree, and the places of rows and the places drawn are different and were given. -/
structure Sound (s : Traffic) : Prop where
  kept : s.table.Kept
  apart : (s.table.rows.map Row.seq).Nodup
  given : ∀ seq ∈ s.table.rows.map Row.seq, seq ≤ s.lastSeq
  drawn : ∀ i seq, s.placeAt i = some seq →
    seq ≤ s.lastSeq ∧ seq ∉ s.table.rows.map Row.seq
  single : ∀ i j seq, s.placeAt i = some seq → s.placeAt j = some seq → i = j

theorem sound_opened (lastSeq : Int) : Sound (opened lastSeq) := by
  constructor
  · exact kept_empty
  · exact List.nodup_nil
  · intro seq hseq
    cases hseq
  · intro i seq hseq
    cases hseq
  · intro i j seq hseq
    cases hseq

theorem Sound.settles (h : s.Sound) {i : Nat} {y : Exchange} {t : Table}
    (hkept : t.Kept) (hplaces : t.rows.map Row.seq = s.table.rows.map Row.seq)
    (hnone : y.place? = none) : Sound ⟨t, s.lastSeq, s.calls.set i y⟩ := by
  have hold : ∀ j seq, placeAt ⟨t, s.lastSeq, s.calls.set i y⟩ j = some seq →
      s.placeAt j = some seq := by
    intro j seq hj
    rcases placeAt_set hj with ⟨-, hy⟩ | ⟨-, hold⟩
    · cases hnone.symm.trans hy
    · exact hold
  constructor
  · exact hkept
  · show (t.rows.map Row.seq).Nodup
    rw [hplaces]
    exact h.apart
  · show ∀ seq ∈ t.rows.map Row.seq, seq ≤ s.lastSeq
    rw [hplaces]
    exact h.given
  · intro j seq hj
    show seq ≤ s.lastSeq ∧ seq ∉ t.rows.map Row.seq
    rw [hplaces]
    exact h.drawn j seq (hold j seq hj)
  · exact fun j k seq hj hk => h.single j k seq (hold j seq hj) (hold k seq hk)

theorem Sound.draws (h : s.Sound) {i : Nat} {record : Record} (now : Timestamp) :
    Sound ⟨s.table, nextSeq s.lastSeq now,
      s.calls.set i (.create record (nextSeq s.lastSeq now))⟩ := by
  have hlater := lt_nextSeq s.lastSeq now
  constructor
  · exact h.kept
  · exact h.apart
  · intro seq hseq
    have hgiven := h.given seq hseq
    show seq ≤ nextSeq s.lastSeq now
    omega
  · intro j seq hj
    show seq ≤ nextSeq s.lastSeq now ∧ seq ∉ s.table.rows.map Row.seq
    rcases placeAt_set hj with ⟨-, hnew⟩ | ⟨-, hold⟩
    · cases hnew
      refine ⟨Int.le_refl _, ?_⟩
      intro hmem
      have hgiven := h.given _ hmem
      omega
    · rcases h.drawn j seq hold with ⟨hle, hfree⟩
      exact ⟨by omega, hfree⟩
  · -- The new place is beyond every place drawn before.
    intro j k seq hj hk
    rcases placeAt_set hj with ⟨hji, hnew⟩ | ⟨hji, hold⟩ <;>
      rcases placeAt_set hk with ⟨hki, hnew'⟩ | ⟨hki, hold'⟩
    · exact hji.trans hki.symm
    · cases hnew
      have hle := (h.drawn k _ hold').1
      omega
    · cases hnew'
      have hle := (h.drawn j _ hold).1
      omega
    · exact h.single j k seq hold hold'

theorem Sound.makes (h : s.Sound) {i : Nat} {record : Record} {seq : Int}
    (hcall : s.calls[i]? = some (.create record seq)) (hnone : s.table.select record.id = none) :
    Sound ⟨s.table.append ⟨record.id, seq, Row.leaseOf record.status, 0, record.stored⟩, s.lastSeq,
      s.calls.set i (.ended (.done (.ok ())))⟩ := by
  have hplace : s.placeAt i = some seq := by
    unfold placeAt
    rw [hcall]
    rfl
  rcases h.drawn i seq hplace with ⟨hgiven, hfree⟩
  have hrows : (s.table.append ⟨record.id, seq, Row.leaseOf record.status, 0,
      record.stored⟩).rows.map Row.seq = s.table.rows.map Row.seq ++ [seq] := List.map_append
  constructor
  · exact h.kept.append rfl rfl hnone
  · rw [hrows]
    refine List.nodup_append.mpr ⟨h.apart, by simp, ?_⟩
    intro a ha b hb hab
    rw [hab, List.mem_singleton.mp hb] at ha
    exact hfree ha
  · intro a ha
    rw [hrows] at ha
    rcases List.mem_append.mp ha with hold | hnew
    · exact h.given a hold
    · exact List.mem_singleton.mp hnew ▸ hgiven
  · intro j a hj
    rcases placeAt_set hj with ⟨-, hy⟩ | ⟨hji, hold⟩
    · cases hy
    · rcases h.drawn j a hold with ⟨hle, hfree'⟩
      refine ⟨hle, ?_⟩
      rw [hrows]
      intro hmem
      rcases List.mem_append.mp hmem with hmem | hnew
      · exact hfree' hmem
      · cases List.mem_singleton.mp hnew
        exact hji (h.single j i _ hold hplace)
  · intro j k a hj hk
    rcases placeAt_set hj with ⟨-, hy⟩ | ⟨-, hold⟩
    · cases hy
    · rcases placeAt_set hk with ⟨-, hy⟩ | ⟨-, hold'⟩
      · cases hy
      · exact h.single j k a hold hold'

theorem Sound.handle (h : s.Sound) (lease : LeaseSettings) (e : Event) :
    (s.handle lease e).Sound := by
  have hturns := turns_handle lease s e
  generalize s.handle lease e = s' at hturns
  cases hturns with
  | begins request =>
      constructor
      · exact h.kept
      · exact h.apart
      · exact h.given
      · intro i seq hi
        rw [placeAt_begins] at hi
        exact h.drawn i seq hi
      · intro i j seq hi hj
        rw [placeAt_begins] at hi hj
        exact h.single i j seq hi hj
  | idles hcall => exact h
  | @acts i now x y t last hcall hacts =>
      cases hacts with
      | looks hplain => exact h.settles h.kept rfl hplain.place?_eq
      | rests => exact h.settles h.kept rfl rfl
      | draws => exact h.draws now
      | makes hnone => exact h.makes hcall hnone
      | replaces hr hcount howner hbusy =>
          exact h.settles (h.kept.withRecord rfl) (map_change fun _ => rfl) rfl
      | chooses hmem hmay => exact h.settles h.kept rfl rfl
      | claims hr hseen => exact h.settles (h.kept.handOut _ _) (map_change fun _ => rfl) rfl
      | locks hr hfree => exact h.settles (h.kept.lockRow _ _ _ _) (map_change fun _ => rfl) rfl
      | unlocks hr hheld => exact h.settles (h.kept.lockRow _ _ _ _) (map_change fun _ => rfl) rfl

theorem Sound.run (h : s.Sound) (lease : LeaseSettings) (events : List Event) :
    (s.run lease events).Sound := by
  induction events generalizing s with
  | nil => exact h
  | cons e rest ih => exact ih (h.handle lease e)

/-!
## Rows that are made in turn
-/

/-- Every row that is made stands beyond those that are there: the calls make their rows in the order
in which they drew the places. -/
def InTurn (lease : LeaseSettings) : Traffic → List Event → Prop
  | _, [] => True
  | s, e :: rest =>
      (∀ new, (s.handle lease e).table = s.table.append new →
        ∀ r ∈ s.table.rows, r.seq < new.seq) ∧ InTurn lease (s.handle lease e) rest

theorem inTurn_append {first rest : List Event} :
    s.InTurn lease (first ++ rest) ↔
      s.InTurn lease first ∧ (s.run lease first).InTurn lease rest := by
  induction first generalizing s with
  | nil => exact ⟨fun h => ⟨trivial, h⟩, And.right⟩
  | cons e first ih =>
      have hcons : ∀ l, s.InTurn lease (e :: l) ↔
          (∀ new, (s.handle lease e).table = s.table.append new →
            ∀ r ∈ s.table.rows, r.seq < new.seq) ∧ (s.handle lease e).InTurn lease l :=
        fun l => Iff.rfl
      rw [List.cons_append, hcons, hcons, run_cons, ih, and_assoc]

/-- What becomes of the rows of a table: a row is added, or one is changed that keeps its place. -/
inductive Alters (t : Table) : Table → Prop where
  | stays : Alters t t
  | gains (new : Row) : Alters t (t.append new)
  | changes {id : String} {f : Row → Row} :
      (∀ r, (f r).id = r.id) → (∀ r, (f r).seq = r.seq) → Alters t (t.change id f)

theorem alters_handle (lease : LeaseSettings) (s : Traffic) (e : Event) :
    Alters s.table (s.handle lease e).table := by
  have hturns := turns_handle lease s e
  generalize s.handle lease e = s' at hturns
  cases hturns with
  | begins request => exact .stays
  | idles hcall => exact .stays
  | acts hcall hacts =>
      cases hacts with
      | looks => exact .stays
      | rests => exact .stays
      | draws => exact .stays
      | makes => exact .gains _
      | replaces => exact .changes (fun _ => rfl) fun _ => rfl
      | chooses => exact .stays
      | claims => exact .changes (fun _ => rfl) fun _ => rfl
      | locks => exact .changes (fun _ => rfl) fun _ => rfl
      | unlocks => exact .changes (fun _ => rfl) fun _ => rfl

theorem places_handle (lease : LeaseSettings) (s : Traffic) (e : Event) :
    s.table.rows.map (fun r => (r.id, r.seq)) <+:
      (s.handle lease e).table.rows.map fun r => (r.id, r.seq) := by
  have halters := alters_handle lease s e
  generalize (s.handle lease e).table = t' at halters
  cases halters with
  | stays => exact List.prefix_rfl
  | gains new =>
      show _ <+: (s.table.rows ++ [new]).map _
      rw [List.map_append]
      exact List.prefix_append _ _
  | changes hid hseq =>
      exact ⟨[], by rw [List.append_nil, map_change fun r => by rw [hid, hseq]]⟩

theorem inOrder_run (ht : s.table.InOrder) (hturn : s.InTurn lease events) :
    (s.run lease events).table.InOrder := by
  induction events generalizing s with
  | nil => exact ht
  | cons e rest ih =>
      refine ih ?_ hturn.2
      have hnew := hturn.1
      have halters := alters_handle lease s e
      generalize (s.handle lease e).table = t' at halters hnew
      cases halters with
      | stays => exact ht
      | gains new =>
          refine List.pairwise_append.mpr ⟨ht, List.pairwise_singleton _ _, ?_⟩
          intro r hr a ha
          cases List.mem_singleton.mp ha
          exact hnew new rfl r hr
      | changes hid hseq =>
          have hpairwise := List.pairwise_map.mpr ht
          rw [← map_change hseq] at hpairwise
          exact List.pairwise_map.mp hpairwise

def Ahead (s : Traffic) : Prop :=
  ∀ i seq, s.placeAt i = some seq → ∀ a ∈ s.table.rows.map Row.seq, a < seq

theorem Ahead.settles (h : s.Ahead) {i : Nat} {y : Exchange} {t : Table} {last : Int}
    (hplaces : t.rows.map Row.seq = s.table.rows.map Row.seq) (hnone : y.place? = none) :
    Ahead ⟨t, last, s.calls.set i y⟩ := by
  intro j seq hj
  show ∀ a ∈ t.rows.map Row.seq, a < seq
  rw [hplaces]
  rcases placeAt_set hj with ⟨-, hy⟩ | ⟨-, hold⟩
  · cases hnone.symm.trans hy
  · exact h j seq hold

theorem exists_placeAt_of_append {new : Row} (h : (s.handle lease e).table = s.table.append new) :
    ∃ i, s.placeAt i = some new.seq := by
  have hlonger : (s.handle lease e).table.rows.length ≠ s.table.rows.length := by
    rw [h]
    simp [Table.append]
  have hturns := turns_handle lease s e
  generalize s.handle lease e = s' at hturns h hlonger
  cases hturns with
  | begins request => exact absurd rfl hlonger
  | idles hcall => exact absurd rfl hlonger
  | @acts i now x y t last hcall hacts =>
      cases hacts with
      | @makes record seq _ _ hnone =>
          have hrow := congrArg Table.rows h
          cases List.singleton_inj.mp (List.append_cancel_left hrow)
          exact ⟨i, by rw [placeAt, hcall]; rfl⟩
      | looks => exact absurd rfl hlonger
      | rests => exact absurd rfl hlonger
      | draws => exact absurd rfl hlonger
      | chooses => exact absurd rfl hlonger
      | replaces => exact absurd (List.length_map _) hlonger
      | claims => exact absurd (List.length_map _) hlonger
      | locks => exact absurd (List.length_map _) hlonger
      | unlocks => exact absurd (List.length_map _) hlonger

/-- All places drawn stay beyond all rows if only one is drawn at a time. -/
theorem Ahead.handle (h : s.Ahead) (hs : s.Sound) (hsingle : s.pending.length ≤ 1) (e : Event) :
    (s.handle lease e).Ahead := by
  have hturns := turns_handle lease s e
  generalize s.handle lease e = s' at hturns
  cases hturns with
  | begins request =>
      intro i seq hi
      rw [placeAt_begins] at hi
      exact h i seq hi
  | idles hcall => exact h
  | @acts i now x y t last hcall hacts =>
      cases hacts with
      | looks hplain => exact h.settles rfl hplain.place?_eq
      | rests => exact h.settles rfl rfl
      | draws =>
          intro j seq hj a ha
          rcases placeAt_set hj with ⟨-, hnew⟩ | ⟨-, hold⟩
          · cases hnew
            exact Int.lt_of_le_of_lt (hs.given a ha) (lt_nextSeq s.lastSeq now)
          · exact h j seq hold a ha
      | @makes record seq _ _ hnone =>
          -- The place is used up, and it was the only one.
          have hplace : s.placeAt i = some seq := by
            rw [placeAt, hcall]
            rfl
          intro j a hj
          rcases placeAt_set hj with ⟨-, hy⟩ | ⟨hji, hold⟩
          · cases hy
          · exact absurd (index_eq_of_length_filterMap_le hsingle hold hplace) hji
      | replaces => exact h.settles (map_change fun _ => rfl) rfl
      | chooses => exact h.settles rfl rfl
      | claims => exact h.settles (map_change fun _ => rfl) rfl
      | locks => exact h.settles (map_change fun _ => rfl) rfl
      | unlocks => exact h.settles (map_change fun _ => rfl) rfl

/-- No call draws a place while another one has still to make its row. -/
def SavesApart (lease : LeaseSettings) (s : Traffic) (events : List Event) : Prop :=
  ∀ first, first <+: events → (s.run lease first).pending.length ≤ 1

theorem Ahead.inTurn (h : s.Ahead) (hs : s.Sound) (hapart : s.SavesApart lease events) :
    s.InTurn lease events := by
  induction events generalizing s with
  | nil => trivial
  | cons e rest ih =>
      constructor
      · intro new hnew r hr
        rcases exists_placeAt_of_append hnew with ⟨i, hi⟩
        exact h i new.seq hi r.seq (List.mem_map_of_mem hr)
      · apply ih (h.handle hs (hapart [] List.nil_prefix) e) (hs.handle lease e)
        intro first hfirst
        exact hapart (e :: first) (List.cons_prefix_cons.mpr ⟨rfl, hfirst⟩)

theorem SavesApart.inTurn {lastSeq : Int} (h : (opened lastSeq).SavesApart lease events) :
    (opened lastSeq).InTurn lease events := by
  refine Ahead.inTurn ?_ (sound_opened lastSeq) h
  intro i seq hi
  cases hi

/-!
## Calls that nobody comes between
-/

theorem run_moves (lease : LeaseSettings) (now : Timestamp) (n : Nat) (x : Exchange) (t : Table)
    (last : Int) (calls : List Exchange) :
    run lease ⟨t, last, calls ++ [x]⟩ (List.replicate n (.moves calls.length now)) =
      ⟨(x.steps lease now n (t, last)).2.1, (x.steps lease now n (t, last)).2.2,
        calls ++ [(x.steps lease now n (t, last)).1]⟩ := by
  induction n generalizing x t last with
  | zero => rfl
  | succ n ih =>
      have hcall : (calls ++ [x])[calls.length]? = some x := by simp
      have hmoves : handle lease ⟨t, last, calls ++ [x]⟩ (.moves calls.length now) =
          ⟨(x.step lease now (t, last)).2.1, (x.step lease now (t, last)).2.2,
            calls ++ [(x.step lease now (t, last)).1]⟩ := by
        simp only [handle, hcall, List.set_append_right, Nat.le_refl, Nat.sub_self]
        rfl
      rw [List.replicate_succ, run_cons, hmoves, ih]
      rfl

def alone (request : Request) (now : Timestamp) (i : Nat) : List Event :=
  .begins request :: List.replicate request.begin.rank (.moves i now)

/-- A call that nobody comes between does what a whole call does. -/
theorem run_alone (lease : LeaseSettings) (request : Request) (now : Timestamp) (s : Traffic) :
    let after := request.begin.finish lease now (s.table, s.lastSeq)
    s.run lease (alone request now s.calls.length) = ⟨after.2.1, after.2.2, s.calls ++ [after.1]⟩ :=
  run_moves lease now request.begin.rank request.begin s.table s.lastSeq s.calls

theorem run_alone_of_new (lease : LeaseSettings) (now : Timestamp) {s : Traffic} {record : Record}
    (hnone : s.table.select record.id = none) :
    s.run lease (alone (.save record) now s.calls.length) =
      ⟨s.table.append ⟨record.id, nextSeq s.lastSeq now, Row.leaseOf record.status, 0,
        record.stored⟩, nextSeq s.lastSeq now, s.calls ++ [.ended (.done (.ok ()))]⟩ := by
  rw [run_alone]
  simp only [Request.begin, finish_select_of_new hnone]

end Traffic
end Table
end LeaseQueue
