import Mathlib.Data.List.Nodup
import Walaru.Lib.CivilTime
import Walaru.Source.Core.Retention

/-!
# What retention keeps

The age bound removes exactly what is older, and the size bound then removes the
oldest items one at a time, as many as it needs and no more. The creation times are
texts; they order as points of time.
-/
namespace Walaru
open Lib.CivilTime

/-- The text of a kind in the retention query. -/
def RetentionKind.text : RetentionKind → String
  | .manifest => "manifest"
  | .recording => "recording"
  | .run => "run"

/-- `ORDER BY created_at, kind, id` on points of time. -/
def Precedes (a b : RetentionItem) : Prop :=
  ∃ x y : Timestamp, a.createdAt = x.text ∧ b.createdAt = y.text ∧
    (compare x.instant y.instant).then
      ((compare a.kind.text b.kind.text).then (compare a.id b.id)) = .lt

/-- The order of the query as a comparison of texts. -/
def itemOrder : RetentionItem → RetentionItem → Ordering :=
  compareLex (compareOn RetentionItem.createdAt)
    (compareLex (compareOn fun item => item.kind.rank) (compareOn RetentionItem.id))

instance : Std.TransCmp itemOrder := by
  unfold itemOrder
  infer_instance

theorem before_iff (a b : RetentionItem) : a.before b = true ↔ itemOrder a b = .lt := by
  simp [RetentionItem.before, itemOrder, compareLex, compareOn]

theorem itemOrder_swap {a b : RetentionItem} : itemOrder a b = .gt ↔ itemOrder b a = .lt :=
  Std.OrientedCmp.gt_iff_lt

theorem itemOrder_eq {a b : RetentionItem} (same : itemOrder a b = .eq) : a = b := by
  simp only [itemOrder, compareLex, compareOn, Ordering.then_eq_eq, Std.compare_eq_iff_eq] at same
  obtain ⟨createdAt, kind, id⟩ := a
  obtain ⟨createdAt', kind', id'⟩ := b
  obtain ⟨rfl, ranks, rfl⟩ := same
  cases kind <;> cases kind' <;> first | rfl | cases ranks

/-- Different items are ordered one way or the other. -/
theorem before_of_not {a b : RetentionItem} (different : b ≠ a) (not_after : ¬ b.before a) :
    a.before b := by
  rw [before_iff] at not_after ⊢
  cases order : itemOrder a b with
  | lt => rfl
  | eq => exact absurd (itemOrder_eq order).symm different
  | gt => exact absurd (itemOrder_swap.mp order) not_after

theorem not_before_trans {a b c : RetentionItem} (first : ¬ b.before a) (second : ¬ c.before b) :
    ¬ c.before a := by
  simp only [before_iff, ← itemOrder_swap, ← ne_eq, ← Ordering.isLE_iff_ne_gt] at first second ⊢
  exact Std.TransCmp.isLE_trans first second

theorem not_before_self (a : RetentionItem) : ¬ a.before a := by
  have same : itemOrder a a = .eq := Std.ReflCmp.compare_self
  rw [before_iff, same]
  nofun

theorem not_before_of_before {a b : RetentionItem} (less : a.before b) : ¬ b.before a := by
  rw [before_iff, ← itemOrder_swap, (before_iff a b).mp less]
  nofun

namespace Store
variable {Payload : Type}

/-- The older of two items, one of which may be missing. -/
def older (best : Option RetentionItem) (item : RetentionItem) : Option RetentionItem :=
  match best with
  | none => some item
  | some first => if item.before first then some item else some first

theorem oldest_eq (items : List RetentionItem) : oldest items = items.foldl older none := rfl

theorem older_some (best item : RetentionItem) :
    older (some best) item = if item.before best then some item else some best := rfl

theorem oldest_spec {items : List RetentionItem} {first : RetentionItem}
    (found : oldest items = some first) :
    first ∈ items ∧ ∀ item ∈ items, ¬ item.before first := by
  have general : ∀ (items : List RetentionItem) (best : RetentionItem),
      items.foldl older (some best) = some first →
      (first = best ∨ first ∈ items) ∧ ¬ best.before first ∧ ∀ item ∈ items, ¬ item.before first := by
    intro items
    induction items with
    | nil =>
      intro best found
      cases found
      exact ⟨.inl rfl, not_before_self _, fun _ inside => absurd inside List.not_mem_nil⟩
    | cons item items ih =>
      intro best found
      rw [List.foldl_cons, older_some] at found
      split at found
      · rename_i less
        obtain ⟨here, notAfter, others⟩ := ih item found
        refine ⟨.inr (List.mem_cons.mpr here), not_before_trans notAfter (not_before_of_before less), ?_⟩
        exact List.forall_mem_cons.mpr ⟨notAfter, others⟩
      · rename_i notLess
        obtain ⟨here, notAfter, others⟩ := ih best found
        refine ⟨here.imp_right (List.mem_cons_of_mem _), notAfter, ?_⟩
        exact List.forall_mem_cons.mpr ⟨not_before_trans notAfter notLess, others⟩
  cases items with
  | nil => cases found
  | cons item items =>
    rw [oldest_eq, List.foldl_cons] at found
    obtain ⟨here, notAfter, others⟩ := general items item found
    exact ⟨List.mem_cons.mpr here, List.forall_mem_cons.mpr ⟨notAfter, others⟩⟩

theorem oldest_none {items : List RetentionItem} (none_ : oldest items = none) : items = [] := by
  have general : ∀ (items : List RetentionItem) (best : RetentionItem),
      items.foldl older (some best) ≠ none := by
    intro items
    induction items with
    | nil => exact fun best => Option.some_ne_none best
    | cons item items ih =>
      intro best
      rw [List.foldl_cons, older_some]
      split
      · exact ih item
      · exact ih best
  cases items with
  | nil => rfl
  | cons item items =>
    rw [oldest_eq, List.foldl_cons] at none_
    exact absurd none_ (general items item)

/-- The primary and foreign keys of the schema. -/
structure Referential (s : Store Payload) : Prop where
  runs : (s.runs.map RunRow.id).Nodup
  recordings : (s.recordings.map RecordingRow.id).Nodup
  manifests : (s.revisionManifests.map ManifestRow.revision).Nodup
  events : ∀ row ∈ s.events, s.hasRun row.runId
  cache : ∀ row ∈ s.verificationCache, s.hasRun row.runId

variable {s t : Store Payload} {item : RetentionItem}

theorem mem_retentionItems {x : RetentionItem} : x ∈ s.retentionItems ↔
    (∃ row ∈ s.runs, x = ⟨row.startedAt, .run, row.id⟩) ∨
      (∃ row ∈ s.recordings, x = ⟨row.createdAt, .recording, row.id⟩) ∨
      ∃ row ∈ s.revisionManifests, x = ⟨row.createdAt, .manifest, row.revision⟩ := by
  simp only [retentionItems, List.mem_append, List.mem_map, @eq_comm _ _ x, or_assoc]

theorem retentionItems_sublist (pruned : Pruned s t) : t.retentionItems.Sublist s.retentionItems :=
  ((pruned.runs.map _).append (pruned.recordings.map _)).append (pruned.revisionManifests.map _)

/-- Rows of one table with one key are one row. -/
theorem eq_of_key {α β : Type} {key : α → β} {rows : List α} (distinct : (rows.map key).Nodup)
    {a b : α} (memberA : a ∈ rows) (memberB : b ∈ rows) (same : key a = key b) : a = b :=
  List.inj_on_of_nodup_map distinct memberA memberB same

theorem Referential.eq_of_id (keys : Referential s) {x y : RetentionItem}
    (memberX : x ∈ s.retentionItems) (memberY : y ∈ s.retentionItems) (kinds : x.kind = y.kind)
    (ids : x.id = y.id) : x = y := by
  rw [mem_retentionItems] at memberX memberY
  rcases memberX with ⟨a, here, rfl⟩ | ⟨a, here, rfl⟩ | ⟨a, here, rfl⟩ <;>
    rcases memberY with ⟨b, there, rfl⟩ | ⟨b, there, rfl⟩ | ⟨b, there, rfl⟩ <;>
    simp only [reduceCtorEq] at kinds ids
  · rw [eq_of_key keys.runs here there ids]
  · rw [eq_of_key keys.recordings here there ids]
  · rw [eq_of_key keys.manifests here there ids]

/-- Deleting by key leaves the items with another kind or another key. -/
theorem mem_deleteItem {x : RetentionItem} : x ∈ (s.deleteItem item).retentionItems ↔
    x ∈ s.retentionItems ∧ ¬ (x.kind = item.kind ∧ x.id = item.id) := by
  obtain ⟨createdAt, kind, id⟩ := item
  cases kind with
  | run =>
    simp only [mem_retentionItems, deleteItem, deleteRuns, List.mem_filter, List.mem_singleton,
      decide_eq_true_eq]
    grind
  | recording =>
    simp only [mem_retentionItems, deleteItem, deleteRecordings, List.mem_filter, Bool.not_eq_true',
      decide_eq_false_iff_not]
    grind
  | manifest =>
    simp only [mem_retentionItems, deleteItem, deleteManifests, List.mem_filter, Bool.not_eq_true',
      decide_eq_false_iff_not]
    grind

theorem Referential.mem_deleteItem (keys : Referential s) (present : item ∈ s.retentionItems)
    {x : RetentionItem} :
    x ∈ (s.deleteItem item).retentionItems ↔ x ∈ s.retentionItems ∧ x ≠ item := by
  rw [Store.mem_deleteItem]
  constructor
  · rintro ⟨member, apart⟩
    exact ⟨member, fun same => apart ⟨same ▸ rfl, same ▸ rfl⟩⟩
  · rintro ⟨member, different⟩
    exact ⟨member, fun same => different (keys.eq_of_id member present same.1 same.2)⟩

theorem Referential.deleteRuns (keys : Referential s) (doomed : List String) :
    Referential (s.deleteRuns doomed) where
  runs := keys.runs.sublist (List.filter_sublist.map _)
  recordings := keys.recordings
  manifests := keys.manifests
  events row member := by
    obtain ⟨old, stays⟩ := List.mem_filter.mp member
    exact (s.hasRun_deleteRuns doomed row.runId).mpr ⟨keys.events row old, by simpa using stays⟩
  cache row member := by
    obtain ⟨old, stays⟩ := List.mem_filter.mp member
    exact (s.hasRun_deleteRuns doomed row.runId).mpr ⟨keys.cache row old, by simpa using stays⟩

theorem Referential.deleteRecordings (keys : Referential s) (doomed : RecordingRow → Bool) :
    Referential (s.deleteRecordings doomed) :=
  ⟨keys.runs, keys.recordings.sublist (List.filter_sublist.map _), keys.manifests, keys.events,
    keys.cache⟩

theorem Referential.deleteManifests (keys : Referential s) (doomed : ManifestRow → Bool) :
    Referential (s.deleteManifests doomed) :=
  ⟨keys.runs, keys.recordings, keys.manifests.sublist (List.filter_sublist.map _), keys.events,
    keys.cache⟩

theorem Referential.deleteItem (keys : Referential s) (item : RetentionItem) :
    Referential (s.deleteItem item) := by
  unfold Store.deleteItem
  split
  · exact keys.deleteRuns _
  · exact keys.deleteRecordings _
  · exact keys.deleteManifests _

theorem Referential.expire (keys : Referential s) (cutoff : String) : Referential (s.expire cutoff) :=
  ((keys.deleteRuns _).deleteRecordings _).deleteManifests _

/-- Without items nothing is stored compressed. -/
theorem Referential.payloadBytes_nil (keys : Referential s) (empty : s.retentionItems = []) :
    s.payloadBytes = 0 := by
  simp only [retentionItems, List.append_eq_nil_iff, List.map_eq_nil_iff] at empty
  obtain ⟨⟨noRuns, noRecordings⟩, noManifests⟩ := empty
  have noRun : ∀ runId, s.hasRun runId = false := fun runId => by simp [hasRun, noRuns]
  have noEvents : s.events = [] := List.eq_nil_iff_forall_not_mem.mpr fun row member => by
    simpa [noRun] using keys.events row member
  have noCache : s.verificationCache = [] := List.eq_nil_iff_forall_not_mem.mpr fun row member => by
    simpa [noRun] using keys.cache row member
  simp [payloadBytes, noEvents, noCache, noRecordings, noManifests]

/-- A deletion leaves fewer items. -/
theorem length_deleteItem (present : item ∈ s.retentionItems) :
    (s.deleteItem item).retentionItems.length < s.retentionItems.length := by
  have kept := retentionItems_sublist (s.pruned_deleteItem item)
  refine lt_of_le_of_ne kept.length_le fun same => ?_
  rw [← kept.eq_of_length same] at present
  exact (mem_deleteItem.mp present).2 ⟨rfl, rfl⟩

/-- The size loop as a run: while the payload exceeds the limit, the oldest item goes. -/
inductive Evicts (maxBytes : Nat) : Store Payload → List RetentionItem → Store Payload → Prop where
  | within {s : Store Payload} (fits : s.payloadBytes ≤ maxBytes) : Evicts maxBytes s [] s
  | next {s t : Store Payload} {item : RetentionItem} {rest : List RetentionItem}
      (exceeds : maxBytes < s.payloadBytes) (first : oldest s.retentionItems = some item)
      (later : Evicts maxBytes (s.deleteItem item) rest t) : Evicts maxBytes s (item :: rest) t

variable {maxBytes : Nat} {evicted : List RetentionItem}

/-- As many deletions as there are items are enough for the loop to end by its test. -/
theorem evict_evicts (maxBytes : Nat) (keys : Referential s) (fuel : Nat) (enough : s.retentionItems.length ≤ fuel) :
    ∃ evicted, Evicts maxBytes s evicted (evict maxBytes fuel s) := by
  induction fuel generalizing s with
  | zero =>
    have empty := List.length_eq_zero_iff.mp (Nat.le_zero.mp enough)
    exact ⟨[], .within (by rw [keys.payloadBytes_nil empty]; exact Nat.zero_le _)⟩
  | succ fuel ih =>
    rw [evict]
    split
    · rename_i fits
      exact ⟨[], .within fits⟩
    · rename_i exceeds
      cases first : oldest s.retentionItems with
      | none =>
        have empty := keys.payloadBytes_nil (oldest_none first)
        omega
      | some item =>
        have fewer := length_deleteItem (oldest_spec first).1
        obtain ⟨rest, later⟩ := ih (keys.deleteItem item) (by omega)
        exact ⟨item :: rest, .next (by omega) first later⟩

theorem Evicts.unique {u : Store Payload} {others : List RetentionItem}
    (run : Evicts maxBytes s evicted t) (again : Evicts maxBytes s others u) : t = u := by
  induction run generalizing others u with
  | within fits =>
    cases again with
    | within => rfl
    | next exceeds => omega
  | next exceeds first later ih =>
    cases again with
    | within => omega
    | next exceeds' first' later' =>
      rw [first] at first'
      cases first'
      exact ih later'

theorem Evicts.fits (run : Evicts maxBytes s evicted t) : t.payloadBytes ≤ maxBytes := by
  induction run with
  | within fits => exact fits
  | next _ _ _ ih => exact ih

theorem Evicts.deletes (run : Evicts maxBytes s evicted t) : t = evicted.foldl deleteItem s := by
  induction run with
  | within => rfl
  | next _ _ _ ih => exact ih

/-- Before each deletion the payload exceeded the limit. -/
theorem Evicts.exceeds (run : Evicts maxBytes s evicted t) (done rest : List RetentionItem)
    (item : RetentionItem) (split : evicted = done ++ item :: rest) :
    maxBytes < (done.foldl deleteItem s).payloadBytes := by
  induction run generalizing done with
  | within => simp at split
  | next exceeds first later ih =>
    cases done with
    | nil => exact exceeds
    | cons head done =>
      obtain ⟨rfl, tail⟩ := List.cons.inj split
      exact ih done tail

/-- The loop deletes items of the store, oldest first, and keeps the others. -/
theorem Evicts.order (run : Evicts maxBytes s evicted t) (keys : Referential s) :
    (∀ x, x ∈ s.retentionItems ↔ x ∈ evicted ∨ x ∈ t.retentionItems) ∧
      evicted.Pairwise (fun a b => a.before b) ∧
      ∀ old ∈ evicted, ∀ x ∈ t.retentionItems, old.before x := by
  induction run with
  | within => simp
  | @next s t item rest exceeds first later ih =>
    obtain ⟨present, minimal⟩ := oldest_spec first
    obtain ⟨members, sorted, kept⟩ := ih (keys.deleteItem item)
    have after : ∀ x, x ∈ (s.deleteItem item).retentionItems → item.before x := by
      intro x member
      obtain ⟨old, different⟩ := (keys.mem_deleteItem present).mp member
      exact before_of_not different (minimal x old)
    refine ⟨fun x => ?_, List.pairwise_cons.mpr ⟨fun x member => after x ?_, sorted⟩, ?_⟩
    · rw [List.mem_cons, or_assoc, ← members x, keys.mem_deleteItem present]
      by_cases same : x = item
      · simp [same, present]
      · simp [same]
    · exact (members x).mpr (.inl member)
    · refine List.forall_mem_cons.mpr ⟨fun x member => after x ((members x).mpr (.inr member)), kept⟩

theorem Referential.mem_expire (keys : Referential s) (cutoff : String) {x : RetentionItem} :
    x ∈ (s.expire cutoff).retentionItems ↔
      x ∈ s.retentionItems ∧ compare x.createdAt cutoff ≠ .lt := by
  have runs : (s.expire cutoff).runs = s.runs.filter fun row => row.id ∉
      (s.runs.filter fun row => compare row.startedAt cutoff = .lt).map fun row => row.id := rfl
  have recordings : (s.expire cutoff).recordings =
      s.recordings.filter fun row => !decide (compare row.createdAt cutoff = .lt) := rfl
  have manifests : (s.expire cutoff).revisionManifests =
      s.revisionManifests.filter fun row => !decide (compare row.createdAt cutoff = .lt) := rfl
  have kept : ∀ row ∈ s.runs, row.id ∉ (s.runs.filter fun row =>
      compare row.startedAt cutoff = .lt).map (fun row => row.id) ↔
        compare row.startedAt cutoff ≠ .lt := by
    intro row member
    simp only [List.mem_map, List.mem_filter, decide_eq_true_eq, not_exists, not_and, and_imp]
    constructor
    · exact fun stays older => stays row member older rfl
    · intro fresh other there older same
      exact fresh (eq_of_key keys.runs there member same ▸ older)
  simp only [mem_retentionItems, runs, recordings, manifests, List.mem_filter, decide_eq_true_eq,
    Bool.not_eq_true', decide_eq_false_iff_not]
  constructor
  · rintro (⟨row, ⟨member, stays⟩, rfl⟩ | ⟨row, ⟨member, stays⟩, rfl⟩ | ⟨row, ⟨member, stays⟩, rfl⟩)
    · exact ⟨.inl ⟨row, member, rfl⟩, (kept row member).mp stays⟩
    · exact ⟨.inr (.inl ⟨row, member, rfl⟩), stays⟩
    · exact ⟨.inr (.inr ⟨row, member, rfl⟩), stays⟩
  · rintro ⟨⟨row, member, rfl⟩ | ⟨row, member, rfl⟩ | ⟨row, member, rfl⟩, fresh⟩
    · exact .inl ⟨row, ⟨member, (kept row member).mpr fresh⟩, rfl⟩
    · exact .inr (.inl ⟨row, ⟨member, fresh⟩, rfl⟩)
    · exact .inr (.inr ⟨row, ⟨member, fresh⟩, rfl⟩)

/-- Every creation time is a text that the store writes. -/
def Dated (s : Store Payload) : Prop :=
  ∀ item ∈ s.retentionItems, ∃ at_ : Timestamp, item.createdAt = at_.text

theorem compare_rank (a b : RetentionKind) : compare a.rank b.rank = compare a.text b.text := by
  cases a <;> cases b <;> decide

theorem precedes_of_before (dated : Dated s) {a b : RetentionItem} (memberA : a ∈ s.retentionItems)
    (memberB : b ∈ s.retentionItems) (less : a.before b) : Precedes a b := by
  obtain ⟨x, textA⟩ := dated a memberA
  obtain ⟨y, textB⟩ := dated b memberB
  refine ⟨x, y, textA, textB, ?_⟩
  rw [← Timestamp.compare_text, ← textA, ← textB, ← compare_rank]
  exact of_decide_eq_true less

end Store

/-- The age limit removes what is older and nothing else; the size loop ends, brings the
payload within the limit, and deletes the oldest items first, each only while the payload
exceeds the limit. -/
theorem prune_keeps_newest {Payload : Type} (s : Store Payload) (keys : s.Referential)
    (dated : s.Dated) (now cutoff : Timestamp) (maxAge maxBytes : Nat)
    (age : cutoff.instant + maxAge = now.instant) :
    (∀ fuel, (s.expire cutoff.text).retentionItems.length ≤ fuel →
      Store.evict maxBytes fuel (s.expire cutoff.text) = s.prune cutoff.text maxBytes) ∧
    (∀ item, item ∈ (s.expire cutoff.text).retentionItems ↔ item ∈ s.retentionItems ∧
      ∀ at_ : Timestamp, item.createdAt = at_.text → now.instant ≤ at_.instant + maxAge) ∧
    (s.prune cutoff.text maxBytes).payloadBytes ≤ maxBytes ∧
    ∃ evicted : List RetentionItem,
      s.prune cutoff.text maxBytes = evicted.foldl Store.deleteItem (s.expire cutoff.text) ∧
      (∀ item, item ∈ (s.expire cutoff.text).retentionItems ↔
        item ∈ evicted ∨ item ∈ (s.prune cutoff.text maxBytes).retentionItems) ∧
      evicted.Pairwise Precedes ∧
      (∀ old ∈ evicted, ∀ item ∈ (s.prune cutoff.text maxBytes).retentionItems, Precedes old item) ∧
      ∀ done item rest, evicted = done ++ item :: rest →
        maxBytes < (done.foldl Store.deleteItem (s.expire cutoff.text)).payloadBytes := by
  have keys' := keys.expire cutoff.text
  have dated' : (s.expire cutoff.text).Dated := fun item member =>
    dated item ((keys.mem_expire cutoff.text).mp member).1
  obtain ⟨evicted, run⟩ := Store.evict_evicts maxBytes keys' _ (Nat.le_refl _)
  obtain ⟨members, sorted, kept⟩ := run.order keys'
  refine ⟨fun fuel enough => ?_, fun item => ?_, run.fits, evicted, run.deletes, members, ?_, ?_, ?_⟩
  · obtain ⟨others, again⟩ := Store.evict_evicts maxBytes keys' fuel enough
    exact again.unique run
  · rw [keys.mem_expire]
    refine and_congr_right fun member => ?_
    obtain ⟨at_, text⟩ := dated item member
    rw [text, ne_eq, Timestamp.compare_text_lt]
    constructor
    · intro fresh other same
      have := (Timestamp.text_eq_iff at_ other).mp same
      omega
    · intro fresh
      have := fresh at_ rfl
      omega
  · exact sorted.imp_of_mem fun memberA memberB less => Store.precedes_of_before dated'
      ((members _).mpr (.inl memberA)) ((members _).mpr (.inl memberB)) less
  · exact fun old gone item stays => Store.precedes_of_before dated' ((members _).mpr (.inl gone))
      ((members _).mpr (.inr stays)) (kept old gone item stays)
  · exact fun done item rest split => run.exceeds done rest item split

/-- A day of January 2026 at ten, and a number of nanoseconds. -/
def january (day nano : Nat) (low : 1 ≤ day) (high : day ≤ 31) (bound : nano < 1000000000) :
    Timestamp :=
  ⟨2026, 1, day, 10, 0, 0, nano, by decide, by decide, by decide, low, high, by decide, by decide,
    by decide, bound⟩

def oldRun : Timestamp := january 1 0 (by decide) (by decide) (by decide)

def wholeSecond : Timestamp := january 8 0 (by decide) (by decide) (by decide)

def laterInSecond : Timestamp := january 8 120000000 (by decide) (by decide) (by decide)

/-- Three runs, each with a cached result of 300 bytes. -/
def threeRuns : Store Unit where
  runs := [⟨"run-1", "rev-1", "rev-1", .passed, oldRun.text, none⟩,
    ⟨"run-2", "rev-2", "rev-2", .passed, laterInSecond.text, none⟩,
    ⟨"run-3", "rev-3", "rev-3", .passed, wholeSecond.text, none⟩]
  tests := []
  dependencies := []
  events := []
  failures := []
  coverage := []
  recordings := []
  verificationCache := [⟨"rev-1", "run-1", oldRun.text, ⟨(), 900, 300⟩⟩,
    ⟨"rev-2", "run-2", laterInSecond.text, ⟨(), 900, 300⟩⟩,
    ⟨"rev-3", "run-3", wholeSecond.text, ⟨(), 900, 300⟩⟩]
  revisionManifests := []

/-- Seven days after the oldest run, 400 bytes keep the run that started last, although
the text of its time is the longer one. -/
theorem prune_keeps_newest_demo :
    (threeRuns.prune (january 2 0 (by decide) (by decide) (by decide)).text 400).payloadBytes ≤ 400 ∧
      (threeRuns.prune (january 2 0 (by decide) (by decide) (by decide)).text 400).runs.map RunRow.id =
        ["run-2"] := by
  have kept := prune_keeps_newest threeRuns
    ⟨by decide, by decide, by decide, by simp [threeRuns], by simp [threeRuns, Store.hasRun]⟩
    (by
      simp only [Store.Dated, threeRuns, Store.retentionItems, List.map_cons, List.map_nil,
        List.append_nil, List.mem_cons, List.not_mem_nil, or_false, forall_eq_or_imp, forall_eq]
      exact ⟨⟨oldRun, rfl⟩, ⟨laterInSecond, rfl⟩, ⟨wholeSecond, rfl⟩⟩)
    (january 9 0 (by decide) (by decide) (by decide)) (january 2 0 (by decide) (by decide) (by decide))
    604800000000000 400 (by decide +kernel)
  exact ⟨kept.2.2.1, by decide +kernel⟩

end Walaru
