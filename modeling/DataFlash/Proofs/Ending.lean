import DataFlash.Power.Status
import DataFlash.Proofs.Grammar
import DataFlash.Proofs.Restart

namespace DataFlash

namespace Feed

variable {σ α : Type} [Feed σ α]

def pulled (n : Nat) (s : σ) : σ := (fun s => (pull s).next)^[n] s

/-- So many pulls yield an item each, and every pull behind them finds the end. -/
def EndsAfter (s : σ) (n : Nat) : Prop := ∀ i, (pull (pulled i s)).item.isSome ↔ i < n

theorem results_pulled [Lasting σ] (n : Nat) (s : σ) :
    results (pulled n s) = (results s).drop n := by
  induction n with
  | zero => rfl
  | succ n ih =>
    have hsucc : pulled (n + 1) s = (pull (pulled n s)).next := Function.iterate_succ_apply' _ n s
    rw [hsucc, results_pull, ih, List.tail_drop]

theorem endsAfter_results [Lasting σ] (s : σ) : EndsAfter s (results s).length := by
  intro i
  rw [item_eq_head?, results_pulled, List.head?_drop, isSome_getElem?]

theorem results_find_of_none [Lasting σ] {keep : α → Bool} {s : σ}
    (h : (find keep s).item = none) : results (find keep s).next = [] := by
  rw [find_item, List.find?_eq_none] at h
  rw [results_find, List.dropWhile_eq_nil_iff.mpr (by simpa using h), List.tail_nil]

theorem find_item_of_results_nil {s : σ} (h : results s = []) (keep : α → Bool) :
    (find keep s).item = none := by
  rw [find_item, h, List.find?_nil]

/-- Where every item uses up some of a size, the size bounds the items. -/
theorem mul_length_results_le (size : σ → Nat) {k : Nat}
    (uses : ∀ s : σ, (pull s).item.isSome → size (pull s).next + k ≤ size s) (s : σ) :
    k * (results s).length ≤ size s := by
  induction s using run_induction with
  | ended s hnone =>
    rw [results_none hnone]
    exact Nat.zero_le _
  | pulled s item hsome ih =>
    have huse := uses s (by rw [hsome]; rfl)
    rw [results_some hsome, List.length_cons, Nat.mul_succ]
    omega

end Feed

theorem BinaryLog.length_results_le (l : BinaryLog) :
    (Feed.results l).length ≤ l.rest.length / headerSize := by
  rw [Nat.le_div_iff_mul_le (by decide), Nat.mul_comm]
  exact Feed.mul_length_results_le (fun l => l.rest.length) length_pull_add_le l

/-- The results of a text log are what its lines give, line by line and at most one from each. -/
theorem TextLog.Stands.results {lines : List (List Char)} {l : TextLog} (h : Stands lines l) :
    Feed.results l = (List.range' l.line l.rest.length).filterMap (outcome lines) := by
  -- On the lines that are left, each of which is read by what those before it teach.
  induction hrest : l.rest generalizing l with
  | nil =>
    have hend : l.pull.item = none := by
      rw [TextLog.pull, hrest]
      rfl
    rw [Feed.results_none hend]
    rfl
  | cons text rest ih =>
    obtain ⟨htext, hstep⟩ := h.step hrest
    have houtcome : outcome lines l.line = given (readLine l.table (l.line + 1) text) := by
      rw [outcome, htext, h.table]
      rfl
    have hmore := ih (hstep l.told) rfl
    rw [results_cons hrest, List.length_cons, List.range'_succ, List.filterMap_cons, houtcome]
    cases given (readLine l.table (l.line + 1) text) with
    | none => exact hmore
    | some item => exact congrArg (item :: ·) hmore

theorem TextLog.results_ofBytes (bytes : List UInt8) :
    let lines := Text.lines (Utf8.decode bytes)
    Feed.results (ofBytes bytes) = (List.range lines.length).filterMap (outcome lines) := by
  intro lines
  rw [List.range_eq_range']
  exact (stands_ofLines lines).results

/-- The ways of pulling from a reader: the records that its filter admits, the next record of a
name, the records of a name one by one, and the power records. -/
inductive Outlet where
  | admitted
  | receive (name : String)
  | messages (name : String)
  | power

namespace Reader

def pullThrough (r : Reader) : Outlet → Bool × Reader
  | .admitted => (r.next.item.isNone, r.next.next)
  | .receive name => ((r.receive name).item.isNone, (r.receive name).next)
  | .messages name =>
    let p := Feed.pull (r.messages name)
    (p.item.isNone, p.next.reader)
  | .power =>
    let p := Feed.pull (PowerFeed.mk r)
    (p.item.isNone, p.next.reader)

def pulledThrough (r : Reader) (outlets : List Outlet) : Reader :=
  outlets.foldl (fun r outlet => (r.pullThrough outlet).2) r

/-- Every way of pulling is a search for the next record that is kept by its name. -/
theorem exists_pullThrough_eq (r : Reader) (outlet : Outlet) : ∃ keep : String → Bool,
    r.pullThrough outlet = ((r.find keep).item.isNone, (r.find keep).next) := by
  cases outlet with
  | admitted => exact ⟨r.config.admits, rfl⟩
  | receive name => exact ⟨(· == name), rfl⟩
  | messages name => exact ⟨(· == name), rfl⟩
  | power => exact ⟨(· == PowerStatus.recordName), congrArg (·, _) Option.isNone_map⟩

def Ended (r : Reader) : Prop := Feed.results r.log = []

/-- A pull that finds the end leaves a reader at the end. -/
theorem ended_of_pullThrough {r : Reader} {outlet : Outlet} (h : (r.pullThrough outlet).1 = true) :
    (r.pullThrough outlet).2.Ended := by
  obtain ⟨keep, hpull⟩ := r.exists_pullThrough_eq outlet
  rw [hpull] at h ⊢
  exact Feed.results_find_of_none (Option.map_eq_none_iff.mp (Option.isNone_iff_eq_none.mp h))

theorem Ended.pullThrough {r : Reader} (h : r.Ended) (outlet : Outlet) :
    (r.pullThrough outlet).1 = true := by
  obtain ⟨keep, hpull⟩ := r.exists_pullThrough_eq outlet
  rw [hpull, Option.isNone_iff_eq_none]
  exact Option.map_eq_none_iff.mpr (Feed.find_item_of_results_nil h _)

theorem Ended.pulledThrough {r : Reader} (h : r.Ended) (outlets : List Outlet) :
    (r.pulledThrough outlets).Ended :=
  List.foldlRecOn outlets _ h fun _ h outlet _ => ended_of_pullThrough (h.pullThrough outlet)

end Reader

/-- From the start, or from a rewind after whatever was done before, so many pulls of a log yield a
record or an error each, and all later ones the end. There are no more of them than headers fit into
the bytes of a binary log, and at most one for each line of a text log. A reader whose end was found
in one way of pulling finds the end in every way, however it is pulled from in between. -/
theorem end_is_final (bytes : List UInt8) (calls : List Log.Call) :
    (let log := Log.ofBytes bytes .binary
      ∃ n ≤ bytes.length / 3, Feed.EndsAfter log n ∧ Feed.EndsAfter (log.after calls).rewind n) ∧
    (let log := Log.ofBytes bytes .text
      let lines := Text.lines (Utf8.decode bytes)
      Feed.results log = (List.range lines.length).filterMap (TextLog.outcome lines) ∧
      ∃ n ≤ lines.length, Feed.EndsAfter log n ∧ Feed.EndsAfter (log.after calls).rewind n) ∧
    ∀ (r : Reader) (outlet : Outlet), (r.pullThrough outlet).1 = true → ∀ outlets last,
      (((r.pullThrough outlet).2.pulledThrough outlets).pullThrough last).1 = true := by
  have hends (kind : LogKind) : let log := Log.ofBytes bytes kind
      Feed.EndsAfter log (Feed.results log).length ∧
        Feed.EndsAfter (log.after calls).rewind (Feed.results log).length := by
    intro log
    refine ⟨Feed.endsAfter_results log, ?_⟩
    rw [← (Log.alike_rewind_after bytes kind calls).results]
    exact Feed.endsAfter_results _
  refine ⟨⟨_, ?_, hends .binary⟩, ⟨?_, _, ?_, hends .text⟩, fun r outlet h outlets last => ?_⟩
  · rw [Log.ofBytes, Log.results_binary]
    exact (BinaryLog.ofBytes bytes).length_results_le
  · rw [Log.ofBytes, Log.results_text]
    exact TextLog.results_ofBytes bytes
  · rw [Log.ofBytes, Log.results_text, TextLog.results_ofBytes]
    simpa using List.length_filterMap_le _ (List.range (Text.lines (Utf8.decode bytes)).length)
  · exact ((Reader.ended_of_pullThrough h).pulledThrough outlets).pullThrough last

/-- An error comes before the end of a log without power records. Behind the end not even the
records that the filter admits are found. -/
theorem end_is_final_lateFault :
    ∃ r, (Reader.ofBytes Reader.lateFault .text { clock := .boot }).value = .ok r ∧
      (r.pullThrough .power).1 = false ∧
      let behind := (r.pullThrough .power).2
      (behind.pullThrough .power).1 = true ∧
        (((behind.pullThrough .power).2.pulledThrough [.admitted, .receive "GPS"]).pullThrough
          (.messages "GPS")).1 = true := by
  obtain ⟨-, -, hreader⟩ := end_is_final Reader.lateFault []
  refine ⟨_, rfl, by decide +kernel, ?_⟩
  intro behind
  have hend : (behind.pullThrough .power).1 = true := by decide +kernel
  exact ⟨hend, hreader behind .power hend [.admitted, .receive "GPS"] (.messages "GPS")⟩

end DataFlash
