import ApiDocs.Extraction
import Mathlib.Data.List.Nodup
import Mathlib.Data.List.Perm.Basic

/-!
# Workers, a queue and a channel

Extraction from many directories at once. The caller starts workers, which may fail; each takes
directories from a shared queue and sends one report for each over a channel with room for all of them;
the caller merges what it receives and returns at the first report of an error, or when the channel is
empty and no worker is left that could send. A step is taken by one party, so a run is any interleaving
of the parties, and a report is anything that the extraction of a directory may come to.

Whatever the interleaving, no directory is taken or reported twice, no worker waits for room in the
channel, and the caller never returns a part of the result as the whole.
-/

namespace ApiDocs.Protocol

structure Report (ρ : Type) where
  directory : String
  result : Except ExtractError (Merged ρ)

def Report.error? {ρ : Type} (r : Report ρ) : Option ExtractError :=
  match r.result with
  | .ok _ => none
  | .error e => some e

inductive Worker (ρ : Type) where
  /-- About to take a directory. -/
  | idle
  | busy (directory : String)
  /-- About to send. -/
  | ready (report : Report ρ)
  /-- Ended, crashed or never started; its end of the channel is closed. -/
  | gone

namespace Worker

variable {ρ : Type}

def directory? : Worker ρ → Option String
  | idle => none
  | busy d => some d
  | ready r => some r.directory
  | gone => none

end Worker

inductive Caller (ρ : Type) where
  /-- So many workers are still to be started. -/
  | starting (left : Nat)
  | collecting (merged : Merged ρ) (received : Nat)
  | returned (result : Except ExtractError (Extracted ρ))

structure State (ρ : Type) where
  queue : List String
  workers : List (Worker ρ) := []
  channel : List (Report ρ) := []
  caller : Caller ρ
  /-- Which worker took which directory, in the order of the queue. -/
  taken : List (Nat × String) := []
  /-- The reports that workers handed to the channel, be it closed or not. -/
  sent : List (Report ρ) := []
  /-- The reports that the caller received. -/
  received : List (Report ρ) := []

section
variable {ρ : Type} [Registry ρ]

def State.start (dispatched : List String) (workers : Nat) : State ρ where
  queue := dispatched
  caller := .starting workers

def capacity (dispatched : List String) : Nat := max dispatched.length 1

def conclude (dispatched received : Nat) (merged : Merged ρ) : Except ExtractError (Extracted ρ) :=
  if received < dispatched then .error (.unitsLost (dispatched - received) dispatched)
  else .ok ⟨merged, dispatched⟩

inductive Step (dispatched : List String) : State ρ → State ρ → Prop where
  | start {s : State ρ} {left : Nat} (hc : s.caller = .starting (left + 1)) :
    Step dispatched s { s with workers := s.workers ++ [.idle], caller := .starting left }
  | startFails {s : State ρ} {left : Nat} (hc : s.caller = .starting (left + 1)) :
    Step dispatched s { s with workers := s.workers ++ [.gone], caller := .starting left }
  /-- The caller closes its own end of the channel and begins to receive. -/
  | listen {s : State ρ} (hc : s.caller = .starting 0) :
    Step dispatched s { s with caller := .collecting { registry := Registry.empty } 0 }
  | take {s : State ρ} {before after : List (Worker ρ)} {d : String} {rest : List String}
    (hw : s.workers = before ++ .idle :: after) (hq : s.queue = d :: rest) :
    Step dispatched s { s with
      queue := rest
      workers := before ++ .busy d :: after
      taken := s.taken ++ [(before.length, d)] }
  | stop {s : State ρ} {before after : List (Worker ρ)}
    (hw : s.workers = before ++ .idle :: after) (hq : s.queue = []) :
    Step dispatched s { s with workers := before ++ .gone :: after }
  | finish {s : State ρ} {before after : List (Worker ρ)} {d : String}
    (result : Except ExtractError (Merged ρ)) (hw : s.workers = before ++ .busy d :: after) :
    Step dispatched s { s with workers := before ++ .ready ⟨d, result⟩ :: after }
  | crash {s : State ρ} {before after : List (Worker ρ)} {d : String}
    (hw : s.workers = before ++ .busy d :: after) :
    Step dispatched s { s with workers := before ++ .gone :: after }
  | send {s : State ρ} {before after : List (Worker ρ)} {r : Report ρ}
    (hw : s.workers = before ++ .ready r :: after) (hopen : ∀ result, s.caller ≠ .returned result)
    (hroom : s.channel.length < capacity dispatched) :
    Step dispatched s { s with
      workers := before ++ .idle :: after
      channel := s.channel ++ [r]
      sent := s.sent ++ [r] }
  /-- The caller has returned; the report is dropped. -/
  | drop {s : State ρ} {before after : List (Worker ρ)} {r : Report ρ}
    {result : Except ExtractError (Extracted ρ)}
    (hw : s.workers = before ++ .ready r :: after) (hc : s.caller = .returned result) :
    Step dispatched s { s with workers := before ++ .idle :: after, sent := s.sent ++ [r] }
  | receive {s : State ρ} {merged report : Merged ρ} {received : Nat} {d : String}
    {rest : List (Report ρ)} (hc : s.caller = .collecting merged received)
    (hch : s.channel = ⟨d, .ok report⟩ :: rest) :
    Step dispatched s { s with
      caller := .collecting (merged.join report) (received + 1)
      channel := rest
      received := s.received ++ [⟨d, .ok report⟩] }
  /-- The first error is returned; the channel is closed with what is in it. -/
  | fail {s : State ρ} {merged : Merged ρ} {received : Nat} {d : String} {e : ExtractError}
    {rest : List (Report ρ)} (hc : s.caller = .collecting merged received)
    (hch : s.channel = ⟨d, .error e⟩ :: rest) :
    Step dispatched s { s with
      caller := .returned (.error e)
      channel := []
      received := s.received ++ [⟨d, .error e⟩] }
  | close {s : State ρ} {merged : Merged ρ} {received : Nat}
    (hc : s.caller = .collecting merged received) (hch : s.channel = [])
    (hgone : ∀ w ∈ s.workers, w = .gone) :
    Step dispatched s { s with caller := .returned (conclude dispatched.length received merged) }

inductive Reachable (dispatched : List String) (workers : Nat) : State ρ → Prop where
  | start : Reachable dispatched workers (.start dispatched workers)
  | step {s t : State ρ} : Reachable dispatched workers s → Step dispatched s t →
    Reachable dispatched workers t

/-! ## The invariant -/

def held (workers : List (Worker ρ)) : List String := workers.filterMap Worker.directory?

omit [Registry ρ] in
theorem count_held (before after : List (Worker ρ)) (w : Worker ρ) (d : String) :
    (held (before ++ w :: after)).count d =
      (held before).count d + w.directory?.toList.count d + (held after).count d := by
  unfold held
  rw [List.filterMap_append, List.filterMap_cons, List.count_append]
  cases w.directory? with
  | none => simp
  | some d' =>
    simp only [Option.toList_some, List.count_cons, List.count_nil]
    omega

def joined (reports : List (Report ρ)) : Merged ρ :=
  (reports.filterMap (·.result.toOption)).foldl Merged.join { registry := Registry.empty }

theorem joined_snoc (reports : List (Report ρ)) (d : String) (report : Merged ρ) :
    joined (reports ++ [⟨d, .ok report⟩]) = (joined reports).join report := by
  unfold joined
  rw [List.filterMap_append, List.foldl_append]
  rfl

def Flow (dispatched : List String) (s : State ρ) : Prop :=
  match s.caller with
  | .starting _ => s.received = [] ∧ s.sent = s.channel
  | .collecting merged received =>
    s.sent = s.received ++ s.channel ∧ s.received.findSome? Report.error? = none ∧
      merged = joined s.received ∧ received = s.received.length
  | .returned result =>
    s.received <+: s.sent ∧
      ((∃ e, s.received.findSome? Report.error? = some e ∧ result = .error e) ∨
        (s.received.findSome? Report.error? = none ∧ s.sent = s.received ∧
          (∀ w ∈ s.workers, w = .gone) ∧
          result = conclude dispatched.length s.received.length (joined s.received)))

structure Inv (dispatched : List String) (s : State ρ) : Prop where
  /-- The queue holds what is not taken. -/
  split : s.taken.map (·.2) ++ s.queue = dispatched
  /-- What is taken is held, reported or lost. -/
  balance : ∀ d, (held s.workers).count d + (s.sent.map (·.directory)).count d ≤
    (s.taken.map (·.2)).count d
  flow : Flow dispatched s

theorem inv_start (dispatched : List String) (workers : Nat) :
    Inv dispatched (.start dispatched workers : State ρ) where
  split := rfl
  balance _ := Nat.le_refl _
  flow := ⟨rfl, rfl⟩

/-- While a worker is there, the flow does not depend on where the workers are. -/
theorem Flow.of_worker {dispatched : List String} {s t : State ρ} (hf : Flow dispatched s) {w : Worker ρ}
    (hw : w ∈ s.workers) (hgone : w ≠ .gone) (hc : t.caller = s.caller) (hr : t.received = s.received)
    (hs : t.sent = s.sent) (hch : t.channel = s.channel) : Flow dispatched t := by
  unfold Flow at hf ⊢
  rw [hc, hr, hs, hch]
  cases hcs : s.caller with
  | starting n =>
    rw [hcs] at hf
    exact hf
  | collecting m n =>
    rw [hcs] at hf
    exact hf
  | returned result =>
    -- a result that was concluded from the end of all workers is not there yet
    rw [hcs] at hf
    refine ⟨hf.1, hf.2.imp_right ?_⟩
    rintro ⟨_, _, hall, _⟩
    exact absurd (hall w hw) hgone

/-- A worker may change its place if it holds what it held, or nothing. -/
theorem Inv.move {dispatched : List String} {s : State ρ} (h : Inv dispatched s)
    {before after : List (Worker ρ)} {w w' : Worker ρ} (hw : s.workers = before ++ w :: after)
    (hgone : w ≠ .gone) (hd : w'.directory? = w.directory? ∨ w'.directory? = none) :
    Inv dispatched { s with workers := before ++ w' :: after } where
  split := h.split
  balance d := by
    have hb := h.balance d
    rw [hw, count_held] at hb
    simp only [count_held]
    rcases hd with hd | hd
    · rw [hd]
      exact hb
    · rw [hd, Option.toList_none, List.count_nil]
      omega
  flow := h.flow.of_worker (w := w) (by rw [hw]; simp) hgone rfl rfl rfl rfl

theorem Inv.add_worker {dispatched : List String} {s : State ρ} (h : Inv dispatched s) {left : Nat}
    (hc : s.caller = .starting (left + 1)) {w : Worker ρ} (hd : w.directory? = none) :
    Inv dispatched { s with workers := s.workers ++ [w], caller := .starting left } where
  split := h.split
  balance d := by
    simp only [count_held, hd, Option.toList_none, List.count_nil]
    exact h.balance d
  flow := by
    have hf := h.flow
    unfold Flow at hf ⊢
    rw [hc] at hf
    exact hf

theorem Inv.take {dispatched : List String} {s : State ρ} (h : Inv dispatched s)
    {before after : List (Worker ρ)} {d : String} {rest : List String}
    (hw : s.workers = before ++ .idle :: after) (hq : s.queue = d :: rest) :
    Inv dispatched { s with
      queue := rest
      workers := before ++ .busy d :: after
      taken := s.taken ++ [(before.length, d)] } where
  split := by
    rw [← h.split, hq]
    simp
  balance d' := by
    have hb := h.balance d'
    rw [hw, count_held] at hb
    simp only [Worker.directory?, Option.toList_none, List.count_nil] at hb
    simp only [count_held, Worker.directory?, Option.toList_some, List.map_append, List.map_cons,
      List.map_nil, List.count_append]
    omega
  flow := h.flow.of_worker (w := .idle) (by rw [hw]; simp) (by simp) rfl rfl rfl rfl

theorem Inv.balance_sent {dispatched : List String} {s : State ρ} (h : Inv dispatched s)
    {before after : List (Worker ρ)} {r : Report ρ} (hw : s.workers = before ++ .ready r :: after)
    (d : String) : (held (before ++ .idle :: after)).count d + ((s.sent ++ [r]).map (·.directory)).count d ≤
      (s.taken.map (·.2)).count d := by
  have hb := h.balance d
  rw [hw, count_held] at hb
  simp only [Worker.directory?, Option.toList_some] at hb
  simp only [count_held, Worker.directory?, Option.toList_none, List.count_nil, List.map_append,
    List.map_cons, List.map_nil, List.count_append]
  omega

theorem Inv.send {dispatched : List String} {s : State ρ} (h : Inv dispatched s)
    {before after : List (Worker ρ)} {r : Report ρ} (hw : s.workers = before ++ .ready r :: after)
    (hopen : ∀ result, s.caller ≠ .returned result) :
    Inv dispatched { s with
      workers := before ++ .idle :: after
      channel := s.channel ++ [r]
      sent := s.sent ++ [r] } where
  split := h.split
  balance := h.balance_sent hw
  flow := by
    have hf := h.flow
    unfold Flow at hf ⊢
    cases hc : s.caller with
    | starting n =>
      simp only [hc] at hf ⊢
      exact ⟨hf.1, by rw [hf.2]⟩
    | collecting m n =>
      simp only [hc] at hf ⊢
      exact ⟨by rw [hf.1, List.append_assoc], hf.2⟩
    | returned result => exact absurd hc (hopen result)

theorem Inv.drop {dispatched : List String} {s : State ρ} (h : Inv dispatched s)
    {before after : List (Worker ρ)} {r : Report ρ} (hw : s.workers = before ++ .ready r :: after)
    {result : Except ExtractError (Extracted ρ)} (hc : s.caller = .returned result) :
    Inv dispatched { s with workers := before ++ .idle :: after, sent := s.sent ++ [r] } where
  split := h.split
  balance := h.balance_sent hw
  flow := by
    have hf := h.flow
    unfold Flow at hf ⊢
    simp only [hc] at hf ⊢
    refine ⟨hf.1.trans (List.prefix_append ..), Or.inl ?_⟩
    rcases hf.2 with he | ⟨_, _, hall, _⟩
    · exact he
    · have := hall (.ready r) (by rw [hw]; simp)
      cases this

theorem Inv.of_flow {dispatched : List String} {s t : State ρ} (h : Inv dispatched s)
    (hq : t.queue = s.queue) (hw : t.workers = s.workers) (ht : t.taken = s.taken) (hs : t.sent = s.sent)
    (hf : Flow dispatched t) : Inv dispatched t where
  split := by rw [ht, hq]; exact h.split
  balance d := by rw [hw, hs, ht]; exact h.balance d
  flow := hf

theorem Flow.collecting {dispatched : List String} {s : State ρ} (hf : Flow dispatched s)
    {merged : Merged ρ} {received : Nat} (hc : s.caller = .collecting merged received) :
    s.sent = s.received ++ s.channel ∧ s.received.findSome? Report.error? = none ∧
      merged = joined s.received ∧ received = s.received.length := by
  unfold Flow at hf
  rw [hc] at hf
  exact hf

theorem inv_step {dispatched : List String} {s t : State ρ} (h : Inv dispatched s)
    (hst : Step dispatched s t) : Inv dispatched t := by
  cases hst with
  | start hc => exact h.add_worker hc rfl
  | startFails hc => exact h.add_worker hc rfl
  | listen hc =>
    refine h.of_flow rfl rfl rfl rfl ?_
    have hf := h.flow
    unfold Flow at hf ⊢
    rw [hc] at hf
    obtain ⟨hr, hs⟩ := hf
    simp only [hr, hs]
    exact ⟨rfl, rfl, rfl, rfl⟩
  | take hw hq => exact h.take hw hq
  | stop hw hq => exact h.move hw nofun (Or.inr rfl)
  | finish result hw => exact h.move hw nofun (Or.inl rfl)
  | crash hw => exact h.move hw nofun (Or.inr rfl)
  | send hw hopen hroom => exact h.send hw hopen
  | drop hw hc => exact h.drop hw hc
  | receive hc hch =>
    refine h.of_flow rfl rfl rfl rfl ?_
    obtain ⟨hs, he, hm, hn⟩ := h.flow.collecting hc
    refine ⟨?_, ?_, ?_, ?_⟩
    · rw [hs, hch, List.append_assoc]
      rfl
    · rw [List.findSome?_append, he]
      rfl
    · rw [hm, joined_snoc]
    · rw [hn, List.length_append]
      rfl
  | fail hc hch =>
    refine h.of_flow rfl rfl rfl rfl ?_
    obtain ⟨hs, he, _, _⟩ := h.flow.collecting hc
    refine ⟨?_, Or.inl ⟨_, ?_, rfl⟩⟩
    · rw [hs, hch, List.append_cons]
      exact List.prefix_append ..
    · rw [List.findSome?_append, he]
      rfl
  | close hc hch hgone =>
    refine h.of_flow rfl rfl rfl rfl ?_
    obtain ⟨hs, he, hm, hn⟩ := h.flow.collecting hc
    rw [hch, List.append_nil] at hs
    exact ⟨⟨[], by rw [hs, List.append_nil]⟩, Or.inr ⟨he, hs, hgone, by rw [hm, hn]⟩⟩

theorem reachable_inv {dispatched : List String} {workers : Nat} {s : State ρ}
    (h : Reachable dispatched workers s) : Inv dispatched s := by
  induction h with
  | start => exact inv_start dispatched workers
  | step _ hst ih => exact inv_step ih hst

/-! ## Consequences -/

namespace Inv

variable {dispatched : List String} {s : State ρ}

theorem taken_le (h : Inv dispatched s) (d : String) :
    (s.taken.map (·.2)).count d ≤ dispatched.count d := by
  rw [← h.split, List.count_append]
  exact Nat.le_add_right ..

theorem sent_subperm (h : Inv dispatched s) :
    (held s.workers ++ s.sent.map (·.directory)).Subperm (s.taken.map (·.2)) := by
  rw [List.subperm_ext_iff]
  intro d _
  rw [List.count_append]
  exact h.balance d

theorem length_le (h : Inv dispatched s) : (held s.workers).length + s.sent.length ≤ dispatched.length := by
  have hl := h.sent_subperm.length_le
  have hs := congrArg List.length h.split
  simp only [List.length_append, List.length_map] at hl hs
  omega

theorem received_prefix (h : Inv dispatched s) : s.received <+: s.sent := by
  have hf := h.flow
  unfold Flow at hf
  split at hf
  · rw [hf.1]
    exact List.nil_prefix
  · rw [hf.1]
    exact List.prefix_append ..
  · exact hf.1

theorem channel_length_le (h : Inv dispatched s) (hopen : ∀ result, s.caller ≠ .returned result) :
    s.channel.length ≤ s.sent.length := by
  have hf := h.flow
  unfold Flow at hf
  split at hf
  · exact Nat.le_of_eq (congrArg List.length hf.2.symm)
  · rw [hf.1, List.length_append]
    exact Nat.le_add_left ..
  · rename_i hc
    exact absurd hc (hopen _)

theorem room (h : Inv dispatched s) {r : Report ρ} (hr : .ready r ∈ s.workers)
    (hopen : ∀ result, s.caller ≠ .returned result) : s.channel.length < capacity dispatched := by
  -- the directory of that report is held, so fewer than all were sent
  have hheld : 0 < (held s.workers).length := by
    refine List.length_pos_of_mem (a := r.directory) ?_
    exact List.mem_filterMap.mpr ⟨_, hr, rfl⟩
  have hc := h.channel_length_le hopen
  have hl := h.length_le
  unfold capacity
  omega

/-- While the caller has not returned, somebody can take a step. -/
theorem live (h : Inv dispatched s)
    (hopen : ∀ result, s.caller ≠ .returned result) : ∃ t, Step dispatched s t := by
  cases hc : s.caller with
  | starting left =>
    cases left with
    | zero => exact ⟨_, .listen hc⟩
    | succ left => exact ⟨_, .start hc⟩
  | collecting merged received =>
    cases hch : s.channel with
    | cons r rest =>
      obtain ⟨d, result⟩ := r
      cases result with
      | ok report => exact ⟨_, .receive hc hch⟩
      | error e => exact ⟨_, .fail hc hch⟩
    | nil =>
      by_cases hgone : ∀ w ∈ s.workers, w = .gone
      · exact ⟨_, .close hc hch hgone⟩
      · obtain ⟨w, hw, hne⟩ : ∃ w ∈ s.workers, w ≠ .gone := by simpa using hgone
        obtain ⟨before, after, hsplit⟩ := List.append_of_mem hw
        cases w with
        | idle =>
          cases hq : s.queue with
          | nil => exact ⟨_, .stop hsplit hq⟩
          | cons d rest => exact ⟨_, .take hsplit hq⟩
        | busy d => exact ⟨_, .crash hsplit⟩
        | ready r => exact ⟨_, .send hsplit hopen (h.room hw hopen)⟩
        | gone => exact absurd rfl hne
  | returned result => exact absurd hc (hopen result)

theorem reported_subperm (h : Inv dispatched s) : (s.sent.map (·.directory)).Subperm dispatched := by
  rw [List.subperm_ext_iff]
  intro d _
  have hb := h.balance d
  have ht := h.taken_le d
  omega

theorem one_taker (h : Inv dispatched s) (hd : dispatched.Nodup) {d : String} {v w : Nat}
    (hv : (v, d) ∈ s.taken) (hw : (w, d) ∈ s.taken) : v = w := by
  have hn : (s.taken.map (·.2)).Nodup := by
    rw [← h.split] at hd
    exact (List.nodup_append.mp hd).1
  have := List.inj_on_of_nodup_map hn hv hw rfl
  exact congrArg Prod.fst this

theorem length_never_reported (h : Inv dispatched s) :
    (dispatched.diff (s.sent.map (·.directory))).length = dispatched.length - s.sent.length := by
  have hp := List.subperm_append_diff_self_of_count_le fun d _ => h.reported_subperm.count_le d
  have hl := hp.length_eq
  rw [List.length_append, List.length_map] at hl
  omega

end Inv

/-! ## Safety -/

/-- What no interleaving breaks. -/
structure Safe (dispatched : List String) (s : State ρ) : Prop where
  /-- The directories are taken one by one, in order. -/
  taken : s.taken.map (·.2) <+: dispatched
  one_taker : dispatched.Nodup → ∀ d v w, (v, d) ∈ s.taken → (w, d) ∈ s.taken → v = w
  /-- A directory is reported no more often than it was taken. -/
  reported : ∀ d, (s.sent.map (·.directory)).count d ≤ (s.taken.map (·.2)).count d
  one_report : dispatched.Nodup → (s.sent.map (·.directory)).Nodup
  room : ∀ r, .ready r ∈ s.workers → (∀ result, s.caller ≠ .returned result) →
    s.channel.length < capacity dispatched
  counted : ∀ merged received, s.caller = .collecting merged received → received = s.received.length
  received_le : s.received.length ≤ dispatched.length
  live : (∀ result, s.caller ≠ .returned result) → ∃ t, Step dispatched s t

structure Concludes (dispatched : List String) (s : State ρ)
    (result : Except ExtractError (Extracted ρ)) : Prop where
  ok_iff : (∃ found, result = .ok found) ↔
    (s.sent.map (·.directory)).Perm dispatched ∧ ∀ r ∈ s.sent, r.error? = none
  /-- A result is that of all directories, merged as their reports came. -/
  whole : ∀ found, result = .ok found →
    (s.received.map (·.directory)).Perm dispatched ∧ found = ⟨joined s.received, dispatched.length⟩
  first_error : ∀ e, s.received.findSome? Report.error? = some e → result = .error e
  lost : s.received.findSome? Report.error? = none → (¬∃ found, result = .ok found) →
    result = .error (.unitsLost (dispatched.diff (s.sent.map (·.directory))).length dispatched.length)

theorem Inv.safe {dispatched : List String} {s : State ρ} (h : Inv dispatched s) : Safe dispatched s where
  taken := by
    rw [← h.split]
    exact List.prefix_append ..
  one_taker hd _ _ _ := h.one_taker hd
  reported d := by
    have := h.balance d
    omega
  one_report hd := by
    rw [List.nodup_iff_count_le_one] at hd ⊢
    intro d
    exact Nat.le_trans (h.reported_subperm.count_le d) (hd d)
  room _ := h.room
  counted _ _ hc := (h.flow.collecting hc).2.2.2
  received_le := by
    have hr := h.received_prefix.length_le
    have hl := h.length_le
    omega
  live := h.live

theorem concludes_error {dispatched : List String} {s : State ρ} (h : Inv dispatched s) {e : ExtractError}
    (he : s.received.findSome? Report.error? = some e) : Concludes dispatched s (.error e) where
  ok_iff := by
    constructor
    · rintro ⟨_, hf⟩
      cases hf
    · rintro ⟨_, hok⟩
      obtain ⟨r, hr, hre⟩ := List.exists_of_findSome?_eq_some he
      rw [hok r (h.received_prefix.subset hr)] at hre
      cases hre
  whole _ hf := by cases hf
  first_error e' he' := by
    rw [he] at he'
    cases he'
    rfl
  lost hn := by
    rw [he] at hn
    cases hn

theorem concludes_close {dispatched : List String} {s : State ρ} (h : Inv dispatched s)
    (he : s.received.findSome? Report.error? = none) (hs : s.sent = s.received) :
    Concludes dispatched s (conclude dispatched.length s.received.length (joined s.received)) := by
  have hok : ∀ r ∈ s.sent, r.error? = none := by
    rw [hs]
    exact List.findSome?_eq_none_iff.mp he
  unfold conclude
  split
  · rename_i hlt
    have hperm : ¬(s.sent.map (·.directory)).Perm dispatched := by
      intro hp
      have := hp.length_eq
      rw [List.length_map, hs] at this
      omega
    refine ⟨?_, ?_, ?_, ?_⟩
    · constructor
      · rintro ⟨_, hf⟩
        cases hf
      · rintro ⟨hp, _⟩
        exact absurd hp hperm
    · intro _ hf
      cases hf
    · intro e he'
      rw [he] at he'
      cases he'
    · intro _ _
      rw [h.length_never_reported, hs]
  · rename_i hge
    have hperm : (s.sent.map (·.directory)).Perm dispatched := by
      refine h.reported_subperm.perm_of_length_le ?_
      rw [List.length_map, hs]
      omega
    refine ⟨⟨fun _ => ⟨hperm, hok⟩, fun _ => ⟨_, rfl⟩⟩, ?_, ?_, ?_⟩
    · intro found hf
      cases hf
      rw [← hs]
      exact ⟨hperm, rfl⟩
    · intro e he'
      rw [he] at he'
      cases he'
    · intro _ hno
      exact absurd ⟨_, rfl⟩ hno

theorem Inv.concludes {dispatched : List String} {s : State ρ} (h : Inv dispatched s)
    {result : Except ExtractError (Extracted ρ)} (hc : s.caller = .returned result) :
    Concludes dispatched s result := by
  have hf := h.flow
  unfold Flow at hf
  rw [hc] at hf
  rcases hf.2 with ⟨e, he, rfl⟩ | ⟨he, hs, _, rfl⟩
  · exact concludes_error h he
  · exact concludes_close h he hs

/-! ## Extraction in sequence

One worker at a time takes the next directory and its report is received at once. This is one of the
runs. -/

/-- Some run with reports of that kind returns the result. -/
def Returns (P : Report ρ → Prop) (dispatched : List String) (workers : Nat)
    (result : Except ExtractError (Extracted ρ)) : Prop :=
  ∃ s : State ρ, Reachable dispatched workers s ∧ (∀ r ∈ s.sent, P r) ∧ s.caller = .returned result

/-- Nothing is under way: some workers have crashed, the others are idle. -/
structure Resting (P : Report ρ → Prop) (crashed idle : Nat) (directories : List String) (merged : Merged ρ)
    (received : Nat) (s : State ρ) : Prop where
  queue : s.queue = directories
  workers : s.workers = List.replicate crashed .gone ++ List.replicate idle .idle
  channel : s.channel = []
  caller : s.caller = .collecting merged received
  sent : ∀ r ∈ s.sent, P r

section
variable {P : Report ρ → Prop} {dispatched : List String} {workers : Nat}

theorem exists_resting_of_starting :
    ∀ (left n : Nat) (s : State ρ), Reachable dispatched workers s → s.caller = .starting left →
      s.workers = List.replicate n .idle → s.queue = dispatched → s.channel = [] → s.sent = [] →
      ∃ t : State ρ, Reachable dispatched workers t ∧
        Resting P 0 (n + left) dispatched { registry := Registry.empty } 0 t
  | 0, n, s, h, hc, hw, hq, hch, hs => by
    refine ⟨_, h.step (.listen hc), hq, by simpa using hw, hch, rfl, ?_⟩
    simp only [hs]
    exact List.forall_mem_nil _
  | left + 1, n, s, h, hc, hw, hq, hch, hs => by
    obtain ⟨t, ht, hrest⟩ := exists_resting_of_starting left (n + 1) _ (h.step (.start hc)) rfl
      (by simp only [hw, List.replicate_succ']) hq hch hs
    rw [Nat.add_right_comm, Nat.add_assoc] at hrest
    exact ⟨t, ht, hrest⟩

theorem exists_resting : ∃ t : State ρ, Reachable dispatched workers t ∧
    Resting P 0 workers dispatched { registry := Registry.empty } 0 t := by
  have h := exists_resting_of_starting (ρ := ρ) (P := P) workers 0 (.start dispatched workers) .start rfl rfl rfl rfl rfl
  rwa [Nat.zero_add] at h

variable {crashed idle : Nat} {directories : List String} {merged : Merged ρ} {received : Nat}
  {s : State ρ} {d : String}

theorem Resting.take (hs : Resting P crashed (idle + 1) (d :: directories) merged received s)
    (h : Reachable dispatched workers s) :
    ∃ t : State ρ, Reachable dispatched workers t ∧ t.queue = directories ∧ t.channel = [] ∧
      t.workers = List.replicate crashed .gone ++ .busy d :: List.replicate idle .idle ∧
      t.caller = .collecting merged received ∧ ∀ r ∈ t.sent, P r :=
  ⟨_, h.step (.take hs.workers hs.queue), rfl, hs.channel, rfl, hs.caller, hs.sent⟩

theorem Resting.crash (hs : Resting P crashed (idle + 1) (d :: directories) merged received s)
    (h : Reachable dispatched workers s) :
    ∃ t : State ρ, Reachable dispatched workers t ∧ Resting P (crashed + 1) idle directories merged received t := by
  obtain ⟨t, ht, hq, hch, hw, hc, hsent⟩ := hs.take h
  refine ⟨_, ht.step (.crash hw), hq, ?_, hch, hc, hsent⟩
  simp only [List.replicate_succ', List.append_assoc, List.singleton_append]

theorem Resting.report (hs : Resting P crashed (idle + 1) (d :: directories) merged received s)
    (h : Reachable dispatched workers s) {result : Except ExtractError (Merged ρ)} (hP : P ⟨d, result⟩) :
    ∃ t : State ρ, Reachable dispatched workers t ∧ t.queue = directories ∧ t.channel = [⟨d, result⟩] ∧
      t.workers = List.replicate crashed .gone ++ List.replicate (idle + 1) .idle ∧
      t.caller = .collecting merged received ∧ ∀ r ∈ t.sent, P r := by
  obtain ⟨t, ht, hq, hch, hw, hc, hsent⟩ := hs.take h
  have hopen : ∀ r, t.caller ≠ .returned r := by
    intro r
    rw [hc]
    nofun
  have hroom : t.channel.length < capacity dispatched := by
    rw [hch]
    exact Nat.le_max_right ..
  refine ⟨_, (ht.step (.finish result hw)).step (.send rfl hopen hroom), hq, ?_, rfl, hc, ?_⟩
  · simp only [hch, List.nil_append]
  · intro r hr
    rcases List.mem_append.mp hr with hr | hr
    · exact hsent r hr
    · exact List.mem_singleton.mp hr ▸ hP

theorem Resting.receive (hs : Resting P crashed (idle + 1) (d :: directories) merged received s)
    (h : Reachable dispatched workers s) (report : Merged ρ) (hP : P ⟨d, .ok report⟩) :
    ∃ t : State ρ, Reachable dispatched workers t ∧
      Resting P crashed (idle + 1) directories (merged.join report) (received + 1) t := by
  obtain ⟨t, ht, hq, hch, hw, hc, hsent⟩ := hs.report h hP
  exact ⟨_, ht.step (.receive hc hch), hq, hw, rfl, rfl, hsent⟩

theorem Resting.fail (hs : Resting P crashed (idle + 1) (d :: directories) merged received s)
    (h : Reachable dispatched workers s) {e : ExtractError} (hP : P ⟨d, .error e⟩) :
    Returns P dispatched workers (.error e) := by
  obtain ⟨t, ht, _, hch, _, hc, hsent⟩ := hs.report h hP
  exact ⟨_, ht.step (.fail hc hch), hsent, rfl⟩

theorem Resting.close (hs : Resting P crashed 0 directories merged received s)
    (h : Reachable dispatched workers s) :
    Returns P dispatched workers (conclude dispatched.length received merged) := by
  refine ⟨_, h.step (.close hs.caller hs.channel ?_), hs.sent, rfl⟩
  rw [hs.workers]
  intro w hw
  simp only [List.replicate_zero, List.append_nil] at hw
  exact List.eq_of_mem_replicate hw

theorem Resting.stop (hs : Resting P crashed (idle + 1) [] merged received s)
    (h : Reachable dispatched workers s) :
    ∃ t : State ρ, Reachable dispatched workers t ∧ Resting P (crashed + 1) idle [] merged received t := by
  refine ⟨_, h.step (.stop hs.workers hs.queue), hs.queue, ?_, hs.channel, hs.caller, hs.sent⟩
  simp only [List.replicate_succ', List.append_assoc, List.singleton_append]

theorem Resting.finish : ∀ {idle crashed : Nat} {s : State ρ}, Resting P crashed idle [] merged received s →
    Reachable dispatched workers s → Returns P dispatched workers (conclude dispatched.length received merged)
  | 0, _, _, hs, h => hs.close h
  | _ + 1, _, _, hs, h => by
    obtain ⟨t, ht, hrest⟩ := hs.stop h
    exact hrest.finish ht

end

def outcome (units : Nat) : Except ExtractError (Collected ρ) → Except ExtractError (Extracted ρ)
  | .error e => .error e
  | .ok found => if 0 < found.lost then .error (.unitsLost found.lost units) else .ok ⟨found.merged, units⟩

omit [Registry ρ] in
theorem conclude_eq_outcome {units received lost : Nat} (merged : Merged ρ) (h : received + lost = units) :
    conclude units received merged = outcome units (.ok ⟨merged, lost⟩) := by
  have hl : units - received = lost := by omega
  show (if received < units then _ else _) = (if 0 < lost then _ else _)
  by_cases hlt : received < units
  · rw [if_pos hlt, if_pos (by omega), hl]
  · rw [if_neg hlt, if_neg (by omega)]

/-- On certain disks, which an extractor does not leave, its reports are of a kind. -/
structure ReportsOn (x : Extractor ρ) (options : ExtractionOptions) (Q : Disk → Prop) (P : Report ρ → Prop) :
    Prop where
  disk : ∀ d disk, Q disk → Q (extractDirectory x options d disk).2
  report : ∀ d disk result, Q disk → (extractDirectory x options d disk).1 = some result → P ⟨d, result⟩

section
variable {x : Extractor ρ} {options : ExtractionOptions} {Q : Disk → Prop} {P : Report ρ → Prop}
  (hx : ReportsOn x options Q P)
include hx

theorem Resting.collect {dispatched : List String} {total : Nat} (workers : Nat) (directories : List String)
    (sofar : Collected ρ) (disk : Disk) : ∀ {crashed received : Nat} {s : State ρ}, Q disk →
      Resting P crashed workers directories sofar.merged received s → Reachable dispatched total s →
      received + sofar.lost + directories.length = dispatched.length →
      Returns P dispatched total (outcome dispatched.length
        (ApiDocs.collect x options workers directories sofar disk).1) := by
  fun_induction ApiDocs.collect x options workers directories sofar disk with
  | case1 workers sofar disk =>
    intro crashed received s hd hs h hlen
    rw [List.length_nil, Nat.add_zero] at hlen
    rw [← conclude_eq_outcome sofar.merged hlen]
    exact hs.finish h
  | case2 directories sofar disk hne =>
    intro crashed received s hd hs h hlen
    rw [Nat.add_assoc] at hlen
    rw [← conclude_eq_outcome sofar.merged hlen]
    exact hs.close h
  | case3 workers d directories sofar disk disk' hcrash ih =>
    intro crashed received s hd hs h hlen
    have hd' := hx.disk d disk hd
    rw [hcrash] at hd'
    obtain ⟨t, ht, hrest⟩ := hs.crash h
    rw [List.length_cons] at hlen
    exact ih hd' hrest ht (by simp only; omega)
  | case4 workers d directories sofar disk e disk' herror =>
    intro crashed received s hd hs h _
    exact hs.fail h (hx.report d disk _ hd (by rw [herror]))
  | case5 workers d directories sofar disk report disk' hreport ih =>
    intro crashed received s hd hs h hlen
    have hd' := hx.disk d disk hd
    rw [hreport] at hd'
    obtain ⟨t, ht, hrest⟩ := hs.receive h report (hx.report d disk _ hd (by rw [hreport]))
    rw [List.length_cons] at hlen
    exact ih hd' hrest ht (by simp only; omega)

omit hx in
theorem extract_eq_outcome (x : Extractor ρ) (options : ExtractionOptions) (root : String) (disk : Disk)
    {directories : List String}
    (h : disk.directories options.ignoredDirectories root = .ok directories) :
    (extract x options root disk).1 = outcome directories.length
      (ApiDocs.collect x options (options.workers directories.length) directories
        ⟨{ registry := Registry.empty }, 0⟩ disk).1 := by
  unfold extract
  rw [h]
  simp only
  split
  · rename_i heq
    rw [heq]
    rfl
  · rename_i found _ heq
    rw [heq]
    unfold outcome
    simp only
    split <;> rfl

/-- The outcome of an extraction is one that the workers may come to. -/
theorem extract_returns {root : String} {disk : Disk} (hd : Q disk) {directories : List String}
    (h : disk.directories options.ignoredDirectories root = .ok directories) :
    Returns P directories (options.workers directories.length) (extract x options root disk).1 := by
  obtain ⟨s, hs, hrest⟩ : ∃ s : State ρ, Reachable directories (options.workers directories.length) s ∧
    Resting P 0 _ directories { registry := Registry.empty } 0 s := exists_resting
  rw [extract_eq_outcome x options root disk h]
  exact Resting.collect hx _ _ _ disk hd hrest hs (by simp)

end

/-! ## Every interleaving -/

/-- **Safety.** Every state of every run is safe, what a run returns is the outcome of its reports, and
extraction in sequence is one of the runs. -/
theorem protocol_safe :
    (∀ (dispatched : List String) (workers : Nat) (s : State ρ), Reachable dispatched workers s →
      Safe dispatched s ∧ ∀ result, s.caller = .returned result → Concludes dispatched s result) ∧
    ∀ (x : Extractor ρ) (options : ExtractionOptions) (root : String) (disk : Disk)
      (directories : List String), disk.directories options.ignoredDirectories root = .ok directories →
      ∃ s : State ρ, Reachable directories (options.workers directories.length) s ∧
        s.caller = .returned (extract x options root disk).1 := by
  refine ⟨fun dispatched workers s h => ?_, fun x options root disk directories h => ?_⟩
  · have hinv := reachable_inv h
    exact ⟨hinv.safe, fun _ => hinv.concludes⟩
  · have hx : ReportsOn x options (fun _ => True) fun _ => True := ⟨fun _ _ _ => trivial, fun _ _ _ _ _ => trivial⟩
    obtain ⟨s, hs, -, hc⟩ := extract_returns hx trivial h
    exact ⟨s, hs, hc⟩

end

/-- Two workers and two directories: the first worker crashes, the second one reports. And the
directories of a small disk. -/
theorem protocol_safe_crash :
    (∃ s : State SchemaRegistry, Reachable ["a", "b"] 2 s ∧
      s.caller = .returned (.error (.unitsLost 1 2)) ∧ Safe ["a", "b"] s ∧
      Concludes ["a", "b"] s (.error (.unitsLost 1 2))) ∧
    (Disk.mk (.directory [("src", .directory [])]) []).directories [] "/" = .ok ["/", "/src"] ∧
      ∃ s : State SchemaRegistry, Reachable ["/", "/src"] 1 s ∧ s.caller = .returned
        (extract (.schemas .schema) ⟨[], [], some 1⟩ "/" ⟨.directory [("src", .directory [])], []⟩).1 := by
  have hd : (Disk.mk (.directory [("src", .directory [])]) []).directories [] "/" = .ok ["/", "/src"] := by
    have he : (Disk.mk (.directory [("src", .directory [])]) []).entry "/" =
      .ok (.directory [("src", .directory [])]) := rfl
    have hj : Path.join "/" "src" = "/src" := rfl
    rw [Disk.directories_of_entry he]
    simp [Entry.visits, Entry.childVisits, isWalked, hj]
  refine ⟨?_, hd, protocol_safe.2 (.schemas .schema) ⟨[], [], some 1⟩ "/" _ _ hd⟩
  obtain ⟨s₁, h₁, r₁⟩ : ∃ t : State SchemaRegistry, Reachable ["a", "b"] 2 t ∧
    Resting (fun _ => True) 0 2 ["a", "b"] { registry := Registry.empty } 0 t := exists_resting
  obtain ⟨s₂, h₂, r₂⟩ := r₁.crash h₁
  obtain ⟨s₃, h₃, r₃⟩ := r₂.receive h₂ { registry := Dict.empty } trivial
  obtain ⟨s, h, -, hc⟩ := r₃.finish h₃
  obtain ⟨hsafe, hresult⟩ := protocol_safe.1 _ _ s h
  exact ⟨s, h, hc, hsafe, hresult _ hc⟩

end ApiDocs.Protocol
