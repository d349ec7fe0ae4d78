import MockAgents.Lib.Pool
/-!
# Scrapes of a histogram

An observation is added to its bucket and then to the count, and a scrape loads the count before
the buckets.  So what a scrape cumulates is nondecreasing, and no more than the count it reports
as long as no observation shows in the buckets only.
-/

namespace MockAgents.Metrics

open Lib List System

/-- `histogramSeries`, with a bucket for each bound. -/
structure HistogramSeries (B : Type) where
  buckets : List Nat
  count : Nat
  sumBits : B

structure HistogramSnapshot (B : Type) where
  cumulative : List Nat
  count : Nat
  sum : B

/-- Where an `observe` stands; `swap` has loaded the sum it is going to replace. -/
inductive ObservePc (B : Type) where
  | bucket
  | count
  | load
  | swap (old : B)
  | done

/-- Where the loop of `snapshot` stands in one series. -/
inductive SnapshotPc (B : Type) where
  | count
  | sum (count : Nat)
  | buckets (snap : HistogramSnapshot B)
  | done (snap : HistogramSnapshot B)

inductive Call (V : Type) where
  | observe (v : V)
  | snapshot

inductive Task (V B : Type) where
  | observe (v : V) (pc : ObservePc B)
  | snapshot (pc : SnapshotPc B)

variable {V B : Type}

section
variable [DecidableEq B] (search : V → Nat) (add : B → V → B)

/-- `search` is the bucket that `sort.SearchFloat64s` finds among the bounds. -/
def observe (s : HistogramSeries B) (v : V) : ObservePc B → HistogramSeries B × ObservePc B
  | .bucket => ({ s with buckets := s.buckets.modify (search v) (· + 1) }, .count)
  | .count => ({ s with count := s.count + 1 }, .load)
  | .load => (s, .swap s.sumBits)
  | .swap old => if s.sumBits = old then ({ s with sumBits := add old v }, .done) else (s, .load)
  | .done => (s, .done)

def snapshot (s : HistogramSeries B) : SnapshotPc B → SnapshotPc B
  | .count => .sum s.count
  | .sum count => .buckets ⟨[], count, s.sumBits⟩
  | .buckets snap =>
    match s.buckets[snap.cumulative.length]? with
    | some n =>
      .buckets { snap with cumulative := snap.cumulative ++ [snap.cumulative.getLast?.getD 0 + n] }
    | none => .done snap
  | .done snap => .done snap

def histogram : System (HistogramSeries B) (Task V B) (Call V) Unit where
  start
    | .observe v => .observe v .bucket
    | .snapshot => .snapshot .count
  next _ s
    | .observe v pc => ((observe search add s v pc).1, .observe v (observe search add s v pc).2)
    | .snapshot pc => (s, .snapshot (snapshot s pc))

end

/-- The scrape has loaded the count and is not yet through the buckets. -/
def Task.reading : Task V B → Bool
  | .snapshot (.sum _) | .snapshot (.buckets _) => true
  | _ => false

/-- The count is loaded when the buckets hold no more observations, and no bucket grows until the
scrape is through. -/
def Undisturbed (w : Pool (HistogramSeries B) (Task V B)) : Act (Call V) Unit → Prop
  | .start _ => True
  | .step i _ =>
    match w.calls[i]? with
    | some (.snapshot .count) => w.shared.buckets.sum ≤ w.shared.count
    | some (.observe _ .bucket) => ∀ t ∈ w.calls, t.reading = false
    | _ => True

/-- What a scrape has read: running totals and, in runs that meet `T`, with what is left to read no
more than the count. -/
def Task.Read (T : Prop) (s : HistogramSeries B) : Task V B → Prop
  | .snapshot (.sum count) => T → s.buckets.sum ≤ count
  | .snapshot (.buckets snap) => snap.cumulative.IsChain (· ≤ ·) ∧ (T →
      snap.cumulative.getLast?.getD 0 + (s.buckets.drop snap.cumulative.length).sum ≤ snap.count)
  | .snapshot (.done snap) => snap.cumulative.IsChain (· ≤ ·) ∧ (T →
      snap.cumulative.getLast?.getD 0 ≤ snap.count)
  | _ => True

section
variable {T : Prop} {s : HistogramSeries B} {w : Pool (HistogramSeries B) (Task V B)}

theorem read_snapshot {pc : SnapshotPc B} (h : (Task.snapshot pc : Task V B).Read T s)
    (hcount : pc = .count → T → s.buckets.sum ≤ s.count) :
    (Task.snapshot (snapshot s pc) : Task V B).Read T s := by
  cases pc with
  | count => exact hcount rfl
  | sum count => exact ⟨.nil, fun hT => by simpa using h hT⟩
  | buckets snap =>
    obtain ⟨hchain, hsum⟩ := h
    rw [snapshot]
    cases hn : s.buckets[snap.cumulative.length]? with
    | none => exact ⟨hchain, fun hT => Nat.le_of_add_right_le (hsum hT)⟩
    | some n =>
      obtain ⟨hlt, rfl⟩ := List.getElem?_eq_some_iff.mp hn
      rw [drop_eq_getElem_cons hlt, sum_cons, ← Nat.add_assoc] at hsum
      refine ⟨hchain.append (.singleton _) fun x hx y hy => ?_, by simpa using hsum⟩
      obtain rfl : _ = y := by simpa using hy
      simp [show _ = some x from hx]
  | done snap => exact h

theorem Task.Read.kept {s' : HistogramSeries B} {u : Task V B} (h : u.Read T s)
    (hs : T → u.reading = true → s'.buckets = s.buckets) : u.Read T s' :=
  match u with
  | .observe .. | .snapshot .count => trivial
  | .snapshot (.sum _) => fun hT => (hs hT rfl).symm ▸ h hT
  | .snapshot (.buckets _) => ⟨h.1, fun hT => (hs hT rfl).symm ▸ h.2 hT⟩
  | .snapshot (.done _) => h

variable [DecidableEq B] {search : V → Nat} {add : B → V → B}

theorem buckets_next {i : Nat} {t u : Task V B} (hi : w.calls[i]? = some t)
    (hok : Undisturbed w (.step i ())) (hu : u ∈ w.calls) (hr : u.reading = true) :
    ((histogram search add).next () w.shared t).1.buckets = w.shared.buckets := by
  rcases t with ⟨v, _ | _ | _ | old | _⟩ | pc
  -- a bucket grows only while no scrape is reading
  case observe.bucket =>
    simp only [Undisturbed, hi] at hok
    exact absurd hr (by simp [hok u hu])
  case observe.swap =>
    simp only [histogram, observe]
    split <;> rfl
  all_goals rfl

theorem read_act {a : Act (Call V) Unit} (h : Holds (fun _ => True) (fun _ => Task.Read T) w)
    (hok : T → Undisturbed w a) :
    Holds (fun _ => True) (fun _ => Task.Read T) ((histogram search add).act w a) := by
  refine h.act (fun call _ => by cases call <;> trivial) (fun i _ t ha hi => ⟨trivial, ?_⟩) ?_
  · cases t with
    | observe => trivial
    | snapshot pc =>
      refine read_snapshot (h.2 i _ hi) ?_
      rintro rfl hT
      simpa [Undisturbed, ha, hi, histogram] using hok hT
  · rintro i _ t j u rfl hi hj -
    exact (h.2 j u hj).kept fun hT => buckets_next hi (hok hT) (mem_of_getElem? hj)

theorem read_run (acts : List (Act (Call V) Unit))
    (h : Holds (fun _ => True) (fun _ => Task.Read T) w)
    (hok : T → (histogram search add).Steps Undisturbed w acts) :
    Holds (fun _ => True) (fun _ => Task.Read T) ((histogram search add).run w acts) := by
  induction acts generalizing w with
  | nil => exact h
  | cons a acts ih => exact ih (read_act h fun hT => (hok hT).1) fun hT => (hok hT).2

end

end MockAgents.Metrics
