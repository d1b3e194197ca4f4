import ClamavDbscan.Proof.FSWatcher.ParserLoads
import ClamavDbscan.Proof.FSWatcher.Progress

/-
This file decides when the event parser of the Go watcher stays inside its buffer.
-/

namespace ClamavDbscan.FSWatcher

open Fanotify Iteration

def Config.outer : Config → Outer
  | .event outer => outer
  | .info outer _ _ _ _ => outer

/-- An event that is not accepted has at least its metadata. -/
def Config.eventLen (memory : Bytes) : Config → Nat
  | .event outer => max eventMetadataLen ((Bytes.readNat memory outer.metadataItor 4).getD 0)
  | .info _ metadata _ _ _ => metadata.eventLen

/-- These are the remaining sizes before a turn and those that the turn computes. -/
def counters (kernel : Kernel) (memory : Bytes) : Config → List Int
  | .event outer =>
      match fanEventOk memory outer.metadataItor outer.n, readMetadata memory outer.metadataItor with
      | some true, some metadata => [outer.n, (metadata.eventLen : Int) - eventMetadataLen]
      | _, _ => [outer.n]
  | .info outer _ infoItor left _ =>
      match processEventInfo kernel memory outer.calls infoItor left with
      | .ok record => [outer.n, left, record.remainingBufferSize]
      | .error _ => [outer.n, left]

/-- A turn loads from its event in the buffer, no remaining size is negative, and no index is out of range. -/
structure Contained (filter : Filter) (kernel : Kernel) (data beyond : Bytes) (config : Config) :
    Prop where
  inEvent : ∀ region ∈ (turnLoads filter kernel config).regions (data ++ beyond),
    region.Within config.outer.metadataItor
      (config.outer.metadataItor + config.eventLen (data ++ beyond))
  inBuffer : ∀ region ∈ (turnLoads filter kernel config).regions (data ++ beyond),
    region.Within 0 data.length
  counted : ∀ counter ∈ counters kernel (data ++ beyond) config, 0 ≤ counter
  subtracted : turn filter kernel (data ++ beyond) config ≠ .stop (.error .negativeBufferSize)
  indexed : turn filter kernel (data ++ beyond) config ≠ .stop (.error .indexOutOfRange)

/-- The first byte of the buffer exists, and every turn is contained. -/
def ParsesInside (filter : Filter) (kernel : Kernel) (data beyond : Bytes) : Prop :=
  0 < data.length ∧ ∀ config, Passes (turn filter kernel (data ++ beyond)) (start data) config →
    Contained filter kernel data beyond config

/-- No directory can be opened, and no event is reported. -/
def Quiet (filter : Filter) (kernel : Kernel) : Prop :=
  filter.filterResults = true ∧ Stale kernel

variable {filter : Filter} {kernel : Kernel} {data beyond : Bytes} {outer : Outer}

section Reading

variable {record length : Nat}

theorem readMetadata_append {offset : Nat} (inside : offset + eventMetadataLen ≤ data.length) :
    readMetadata (data ++ beyond) offset = readMetadata data offset := by
  rw [readMetadata, readMetadata, Bytes.read_append inside]

theorem readMetadata_isSome {offset : Nat} {metadata : Metadata}
    (found : readMetadata data offset = some metadata) : offset + eventMetadataLen ≤ data.length := by
  obtain ⟨bytes, present, _⟩ := Option.map_eq_some_iff.mp found
  exact Bytes.read_isSome present

theorem exists_readMetadata {offset : Nat} (inside : offset + eventMetadataLen ≤ data.length) :
    ∃ metadata, readMetadata data offset = some metadata := by
  rw [readMetadata, Bytes.read, if_pos inside]
  exact ⟨_, rfl⟩

theorem handleEnd_append {handle : Nat} (inside : handle + length ≤ data.length) :
    handleEnd (data ++ beyond) handle length = handleEnd data handle length := by
  unfold handleEnd
  split
  · rename_i enough
    change 8 ≤ length at enough
    rw [Bytes.readNat_append (by omega)]
  · rfl

/-- A record inside of the buffer has its name inside of it. -/
theorem nameOffset_append (inside : record + length ≤ data.length) :
    nameOffset (data ++ beyond) record length = nameOffset data record length := by
  unfold nameOffset
  by_cases enough : infoFidLen ≤ length
  · have twelve : 12 ≤ length := enough
    have slice : record + infoFidLen + (length - infoFidLen) = record + length := by omega
    rw [Bytes.readNat_append (by omega), handleEnd_append (by omega)]
  · rw [if_neg fun both => enough both.2, if_neg fun both => enough both.2]

theorem hasName_append (beyond : Bytes) (inside : record + length ≤ data.length) :
    hasName (data ++ beyond) record length = hasName data record length := by
  rw [hasName, hasName, nameOffset_append inside]
  cases nameOffset data record length with
  | none => rfl
  | some offset =>
      rw [Option.any_some, Option.any_some]
      by_cases small : offset < length
      · rw [Bytes.readNat_append (by omega)]
      · simp [small]

end Reading

/-- The parser is at the event of the place, with the rest of the buffer. -/
structure AtEvent (data : Bytes) (outer : Outer) (offset : Nat) : Prop where
  itor : outer.metadataItor = offset
  inside : offset ≤ data.length
  rest : outer.n = (data.length - offset : Nat)

/-- The parser is at the record of the place, with the rest of its event. -/
structure AtRecord (filter : Filter) (kernel : Kernel) (data : Bytes) (outer : Outer)
    (metadata : Metadata) (parsed : ParsedName) (offset left : Nat) (named : Bool) : Prop where
  header : infoHeaderLen < left
  behind : outer.metadataItor + eventMetadataLen ≤ offset
  ends : offset + left = outer.metadataItor + metadata.eventLen
  inside : offset + left ≤ data.length
  rest : outer.n = (data.length - outer.metadataItor : Nat)
  known : parsed.filename ≠ [] → named = true
  quiet : Quiet filter kernel → parsed.dirpath = none ∧ (named = true → parsed.filename ≠ [])

/-- The parser walks over the layout of its buffer. -/
inductive Related (filter : Filter) (kernel : Kernel) (data : Bytes) : Config → Place → Prop
  | event {outer : Outer} {offset : Nat} : AtEvent data outer offset →
      Related filter kernel data (.event outer) (.event offset)
  | record {outer : Outer} {metadata : Metadata} {parsed : ParsedName} {offset left : Nat}
      {named : Bool} : AtRecord filter kernel data outer metadata parsed offset left named →
      Related filter kernel data (.info outer metadata offset left parsed) (.record offset left named)

/-- The parser moves along the layout, and a quiet one moves wherever the layout leads. -/
structure Follows (filter : Filter) (kernel : Kernel) (data beyond : Bytes) (config : Config)
    (place : Place) : Prop where
  contained : Contained filter kernel data beyond config
  forward : ∀ after, turn filter kernel (data ++ beyond) config = .next after →
    ∃ later, Passes (layout data) place later ∧ Related filter kernel data after later
  backward : Quiet filter kernel → ∀ later, layout data place = .next later →
    ∃ after, turn filter kernel (data ++ beyond) config = .next after ∧
      Related filter kernel data after later

section Event

variable {offset : Nat}

theorem AtEvent.fanEventOk_eq (beyond : Bytes) (placed : AtEvent data outer offset)
    (short : data.length < 2 ^ 31) :
    fanEventOk (data ++ beyond) outer.metadataItor outer.n =
      some ((readMetadata data offset).any fun metadata =>
        decide (eventMetadataLen ≤ metadata.eventLen) &&
          decide (offset + metadata.eventLen ≤ data.length)) := by
  have inside := placed.inside
  rw [placed.itor, placed.rest, fanEventOk, asUintptr_natCast (by omega)]
  split
  · rename_i few
    have absent : readMetadata data offset = none := by
      rw [readMetadata, Bytes.read, if_neg (by omega), Option.map_none]
    rw [absent, Option.any_none]
  · rename_i many
    have room : offset + eventMetadataLen ≤ data.length := by omega
    have field : offset + 4 ≤ data.length := Nat.le_trans (Nat.add_le_add_left (by decide) offset) room
    obtain ⟨metadata, found⟩ := exists_readMetadata room
    rw [found, Option.any_some, Bytes.readNat_append field, readMetadata_eventLen found,
      Option.map_some, asUint32_natCast (by omega)]
    congr 2
    rw [decide_eq_decide]
    omega

/-- An event that is accepted is entered, and the parser stops at any other one. -/
theorem AtEvent.turn_eq (filter : Filter) (kernel : Kernel) (beyond : Bytes)
    (placed : AtEvent data outer offset) (short : data.length < 2 ^ 31) :
    turn filter kernel (data ++ beyond) (.event outer) =
      match readMetadata data offset with
      | none => .stop (.ok outer.results)
      | some metadata =>
          if eventMetadataLen ≤ metadata.eventLen ∧ offset + metadata.eventLen ≤ data.length then
            enterEvent filter outer metadata
          else .stop (.ok outer.results) := by
  rw [turn, placed.fanEventOk_eq beyond short]
  cases found : readMetadata data offset with
  | none => rfl
  | some metadata =>
      have inside := readMetadata_isSome found
      rw [placed.itor, readMetadata_append inside, found, Option.any_some]
      by_cases accepted : eventMetadataLen ≤ metadata.eventLen ∧ offset + metadata.eventLen ≤ data.length
      · simp only [accepted.1, accepted.2, decide_true, Bool.and_self, and_self, if_true]
        rw [enterEvent, placed.itor]
      · have refused : (decide (eventMetadataLen ≤ metadata.eventLen) &&
            decide (offset + metadata.eventLen ≤ data.length)) = false := by
          rw [Bool.eq_false_iff, ne_eq, Bool.and_eq_true, decide_eq_true_eq, decide_eq_true_eq]
          exact accepted
        simp only [refused, if_neg accepted]

theorem turnLoads_event_stays (outer : Outer) {high : Nat}
    (room : outer.metadataItor + eventMetadataLen ≤ high)
    (mapped : high ≤ (data ++ beyond).length) :
    Loads.Stays (data ++ beyond) outer.metadataItor high (turnLoads filter kernel (.event outer))
      fun _ => True := by
  have four : outer.metadataItor + 4 ≤ high := Nat.le_trans (Nat.add_le_add_left (by decide) _) room
  have accepting : Loads.Stays (data ++ beyond) outer.metadataItor high
      (fanEventOkLoads outer.metadataItor outer.n) fun _ => True := by
    unfold fanEventOkLoads
    split
    · exact .give trivial
    · exact .bind (.nat (Nat.le_refl _) four mapped) fun _ _ _ => .give trivial
  refine .bind accepting fun accepted _ _ => ?_
  split
  · exact .bind (loadMetadata_stays (Nat.le_refl _) room mapped) fun _ _ _ => .give trivial
  · exact .give trivial

theorem finishEvent_nameless (filter : Filter) (outer : Outer) (metadata : Metadata)
    {parsed : ParsedName} (nameless : parsed.filename = []) :
    finishEvent filter outer metadata parsed = .stop (.error .noFilepath) :=
  if_pos nameless

/-- The parser and the layout stop together, except at an overflow, or they enter the event. -/
theorem AtEvent.turn_cases (filter : Filter) (kernel : Kernel) (beyond : Bytes)
    (placed : AtEvent data outer offset) (short : data.length < 2 ^ 31) :
    (∃ outcome, turn filter kernel (data ++ beyond) (.event outer) = .stop outcome ∧
      outcome ≠ .error .negativeBufferSize ∧ outcome ≠ .error .indexOutOfRange ∧
      layout data (.event offset) = .stop ()) ∨
    (turn filter kernel (data ++ beyond) (.event outer) = .next (.event outer) ∧
      layout data (.event offset) = .stop ()) ∨
    ∃ metadata, Walked data offset metadata ∧
      turn filter kernel (data ++ beyond) (.event outer) =
        .next (.info outer metadata (offset + eventMetadataLen)
          (metadata.eventLen - eventMetadataLen : Nat) .none) ∧
      layout data (.event offset) =
        .next (.record (offset + eventMetadataLen) (metadata.eventLen - eventMetadataLen) false) := by
  rw [placed.turn_eq filter kernel beyond short, layout]
  cases readMetadata data offset with
  | none => exact .inl ⟨_, rfl, by simp, by simp, rfl⟩
  | some metadata =>
      dsimp only
      split
      · rename_i accepted
        obtain ⟨long, inside⟩ := accepted
        have left : (metadata.eventLen : Int) - eventMetadataLen =
            (metadata.eventLen - eventMetadataLen : Nat) := (Int.ofNat_sub long).symm
        unfold enterEvent
        split
        · rename_i version
          exact .inl ⟨_, rfl, by simp, by simp, if_neg fun walked => version walked.2.1⟩
        · rename_i version
          split
          · rename_i overflow
            exact .inr (.inl ⟨rfl, if_neg fun walked => overflow walked.2.2.1⟩)
          · rename_i plain
            dsimp only
            rw [left, asUintptr_natCast (by omega)]
            split
            · rename_i more
              have walked : Walked data offset metadata :=
                ⟨inside, not_not.mp version, not_not.mp plain, by omega⟩
              exact .inr (.inr ⟨metadata, walked, by rw [placed.itor], if_pos walked⟩)
            · rename_i few
              rw [finishEvent_nameless filter outer metadata rfl]
              refine .inl ⟨_, rfl, by simp, by simp, if_neg fun walked => few ?_⟩
              have enough := walked.2.2.2
              omega
      · rename_i refused
        refine .inl ⟨_, rfl, by simp, by simp, if_neg fun walked => refused ⟨?_, walked.1⟩⟩
        have enough := walked.2.2.2
        omega

theorem AtEvent.loads_inside (placed : AtEvent data outer offset) (short : data.length < 2 ^ 31)
    {region : Loads.Region}
    (member : region ∈ (turnLoads filter kernel (.event outer)).regions (data ++ beyond)) :
    region.Within offset (offset + eventMetadataLen) ∧ region.Within 0 data.length := by
  have inside := placed.inside
  by_cases few : data.length - offset < eventMetadataLen
  · have refused : fanEventOkLoads outer.metadataItor outer.n = pure false := by
      rw [placed.rest, fanEventOkLoads, asUintptr_natCast (by omega), if_pos few]
    rw [turnLoads, refused] at member
    exact absurd member List.not_mem_nil
  · have room : offset + eventMetadataLen ≤ data.length := by omega
    have mapped : outer.metadataItor + eventMetadataLen ≤ (data ++ beyond).length := by
      rw [placed.itor, List.length_append]
      omega
    have within := (turnLoads_event_stays outer (Nat.le_refl _) mapped).1 region member
    rw [placed.itor] at within
    exact ⟨within, within.mono (Nat.zero_le _) room⟩

theorem AtEvent.counters_nonneg {memory : Bytes} {counter : Int} (placed : AtEvent data outer offset)
    (member : counter ∈ counters kernel memory (.event outer)) : 0 ≤ counter := by
  have rest : 0 ≤ outer.n := by
    rw [placed.rest]
    exact Int.natCast_nonneg _
  simp only [counters] at member
  split at member
  · rename_i metadata accepted found
    have long := eventLen_of_fanEventOk accepted found
    rcases List.mem_pair.mp member with rfl | rfl
    · exact rest
    · omega
  · rw [List.mem_singleton.mp member]
    exact rest

theorem AtEvent.contained (placed : AtEvent data outer offset) (short : data.length < 2 ^ 31) :
    Contained filter kernel data beyond (.event outer) := by
  have stops : ∀ failure, turn filter kernel (data ++ beyond) (.event outer) = .stop (.error failure) →
      failure ≠ .negativeBufferSize ∧ failure ≠ .indexOutOfRange := by
    intro failure turned
    rcases placed.turn_cases filter kernel beyond short with
      ⟨outcome, same, counted, indexed, _⟩ | ⟨same, _⟩ | ⟨_, _, same, _⟩
    · obtain rfl := Turn.stop.inj (same.symm.trans turned)
      exact ⟨fun wrong => counted (wrong ▸ rfl), fun wrong => indexed (wrong ▸ rfl)⟩
    · cases same.symm.trans turned
    · cases same.symm.trans turned
  constructor
  · intro region member
    change region.Within outer.metadataItor (outer.metadataItor + max _ _)
    rw [placed.itor]
    exact (placed.loads_inside short member).1.mono (Nat.le_refl _)
      (Nat.add_le_add_left (Nat.le_max_left _ _) _)
  · exact fun region member => (placed.loads_inside short member).2
  · exact fun _ member => placed.counters_nonneg member
  · exact fun turned => (stops _ turned).1 rfl
  · exact fun turned => (stops _ turned).2 rfl

theorem AtEvent.follows (placed : AtEvent data outer offset) (short : data.length < 2 ^ 31) :
    Follows filter kernel data beyond (.event outer) (.event offset) := by
  have cases := placed.turn_cases filter kernel beyond short
  have enters : ∀ metadata, Walked data offset metadata →
      Related filter kernel data (.info outer metadata (offset + eventMetadataLen)
        (metadata.eventLen - eventMetadataLen : Nat) .none)
        (.record (offset + eventMetadataLen) (metadata.eventLen - eventMetadataLen) false) := by
    intro metadata walked
    obtain ⟨inside, _, _, long⟩ := walked
    have itor := placed.itor
    refine .record ⟨by omega, by omega, by omega, by omega, itor ▸ placed.rest, ?_, ?_⟩
    · exact fun named => absurd rfl named
    · exact fun _ => ⟨rfl, nofun⟩
  refine ⟨placed.contained short, ?_, ?_⟩
  · intro after turned
    rcases cases with ⟨outcome, same, _⟩ | ⟨same, _⟩ | ⟨metadata, walked, same, led⟩
    · cases same.symm.trans turned
    · obtain rfl := Turn.next.inj (same.symm.trans turned)
      exact ⟨_, .refl _ _, .event placed⟩
    · obtain rfl := Turn.next.inj (same.symm.trans turned)
      exact ⟨_, .step led, enters metadata walked⟩
  · intro _ later led
    rcases cases with ⟨_, _, _, _, same⟩ | ⟨_, same⟩ | ⟨metadata, walked, turned, same⟩
    · cases same.symm.trans led
    · cases same.symm.trans led
    · obtain rfl := Turn.next.inj (same.symm.trans led)
      exact ⟨_, turned, enters metadata walked⟩

end Event

section Record

variable {metadata : Metadata} {parsed : ParsedName} {offset left length : Nat} {named : Bool}

/-- Behind its last record an event without a name panics, and one with a name is left behind. -/
theorem finishEvent_cases (filter : Filter) (parsed : ParsedName)
    (rest : outer.n = (data.length - outer.metadataItor : Nat))
    (inside : outer.metadataItor + metadata.eventLen ≤ data.length) :
    (∃ outcome, finishEvent filter outer metadata parsed = .stop outcome ∧
      outcome ≠ .error .negativeBufferSize ∧ outcome ≠ .error .indexOutOfRange ∧
      (parsed.filename = [] ∨ filter.allowPath parsed.dirpath = true ∨
        outer.metadataItor + metadata.eventLen = data.length)) ∨
    parsed.filename ≠ [] ∧ outer.metadataItor + metadata.eventLen < data.length ∧
      ∃ after, finishEvent filter outer metadata parsed = .next (.event after) ∧
        AtEvent data after (outer.metadataItor + metadata.eventLen) := by
  unfold finishEvent
  split
  · rename_i nameless
    exact .inl ⟨_, rfl, by simp, by simp, .inl nameless⟩
  · rename_i name
    split
    · rename_i unknown
      exact .inl ⟨_, rfl, by simp, by simp, .inr (.inl unknown.1)⟩
    · dsimp only
      rw [if_neg (by omega)]
      split
      · exact .inl ⟨_, rfl, by simp, by simp, .inr (.inr (by omega))⟩
      · refine .inr ⟨name, by omega, _, rfl, rfl, inside, ?_⟩
        dsimp only
        omega

/-- The record is processed inside of its event. -/
theorem AtRecord.stays (beyond : Bytes)
    (placed : AtRecord filter kernel data outer metadata parsed offset left named)
    (short : data.length < 2 ^ 31) (sized : Bytes.readNat data (offset + 2) 2 = some length)
    (fits : length ≤ left) :
    Loads.Stays (data ++ beyond) offset (offset + left)
      (processEventInfoLoads kernel outer.calls offset left)
      (Processes kernel (data ++ beyond) offset left length) := by
  have header := placed.header
  have inside := placed.inside
  have mapped : offset + left ≤ (data ++ beyond).length := by
    rw [List.length_append]
    omega
  change 4 < left at header
  apply processEventInfoLoads_stays mapped placed.header (by omega) _ fits
  rw [Bytes.readNat_append (by omega), sized]

/-- The name of an event is the last one of its records, and the layout knows if there is one. -/
theorem AtRecord.name_known
    (placed : AtRecord filter kernel data outer metadata parsed offset left named) {name : ParsedName}
    (inside : offset + length ≤ data.length) (given : NameOf kernel (data ++ beyond) offset length name) :
    ((if name.filename = [] then parsed else name).filename ≠ [] →
      (named || hasName data offset length) = true) ∧
    (Quiet filter kernel → (if name.filename = [] then parsed else name).dirpath = none ∧
      ((named || hasName data offset length) = true →
        (if name.filename = [] then parsed else name).filename ≠ [])) := by
  rw [← hasName_append beyond inside, Bool.or_eq_true]
  split
  · rename_i nameless
    refine ⟨fun known => .inl (placed.known known), fun quiet => ⟨(placed.quiet quiet).1, ?_⟩⟩
    rintro (before | here)
    · exact (placed.quiet quiet).2 before
    · exact absurd nameless ((given.stale quiet.2).2 here)
  · rename_i nonempty
    exact ⟨fun known => .inr (given.named known), fun quiet => ⟨(given.stale quiet.2).1, fun _ => nonempty⟩⟩

/-- The parser and the layout move on together behind a record that fits. -/
theorem AtRecord.turn_cases (beyond : Bytes)
    (placed : AtRecord filter kernel data outer metadata parsed offset left named)
    (short : data.length < 2 ^ 31) (sized : Bytes.readNat data (offset + 2) 2 = some length)
    (fits : length ≤ left) (more : nameOffset data offset length ≠ some length) :
    (∃ outcome, turn filter kernel (data ++ beyond) (.info outer metadata offset left parsed) = .stop outcome ∧
      outcome ≠ .error .negativeBufferSize ∧ outcome ≠ .error .indexOutOfRange ∧
      (Quiet filter kernel → layout data (.record offset left named) = .stop ())) ∨
    ∃ after later, turn filter kernel (data ++ beyond) (.info outer metadata offset left parsed) = .next after ∧
      layout data (.record offset left named) = .next later ∧ Related filter kernel data after later := by
  have inside := placed.inside
  have ends := placed.ends
  have within : offset + length ≤ data.length := by omega
  obtain ⟨_, result, given, processes⟩ := placed.stays beyond short sized fits
  rw [turn_eq_run, turnLoads, Loads.run_bind, given, layout, sized]
  cases processes with
  | full full =>
      rw [nameOffset_append within] at full
      exact absurd full more
  | @record name calls _ gives =>
      obtain ⟨known, quiet⟩ := placed.name_known within gives
      dsimp only [Option.bind_some, Loads.run_pure, Option.getD_some, afterInfo]
      generalize (if name.filename = [] then parsed else name) = found at *
      generalize (named || hasName data offset length) = flag at *
      by_cases further : infoHeaderLen + length < left
      · rw [if_pos further, if_pos further]
        refine .inr ⟨_, _, rfl, rfl, .record ⟨by omega, ?_, ?_, ?_, placed.rest, known, quiet⟩⟩
        · exact Nat.le_trans placed.behind (Nat.le_add_right _ _)
        · dsimp only
          omega
        · omega
      · rw [if_neg further, if_neg further]
        dsimp only
        have rest : ({ outer with calls := calls } : Outer).n =
            (data.length - ({ outer with calls := calls } : Outer).metadataItor : Nat) := placed.rest
        rcases finishEvent_cases filter found rest (ends ▸ inside) with
          ⟨outcome, stopped, counted, indexed, why⟩ | ⟨name, less, after, goes, next⟩
        · refine .inl ⟨outcome, by rw [stopped], counted, indexed, fun silent => if_neg ?_⟩
          rintro ⟨named, less⟩
          obtain ⟨hidden, nonempty⟩ := quiet silent
          rcases why with nameless | allowed | full
          · exact nonempty named nameless
          · unfold Filter.allowPath at allowed
            rw [if_pos silent.1, hidden] at allowed
            cases allowed
          · dsimp only at full
            omega
        · refine .inr ⟨_, _, by rw [goes], if_pos ⟨known name, ?_⟩, .event (ends ▸ next)⟩
          dsimp only at less
          omega

/-- The header of the record is inside of the event. -/
theorem AtRecord.exists_length
    (placed : AtRecord filter kernel data outer metadata parsed offset left named) :
    ∃ length, Bytes.readNat data (offset + 2) 2 = some length := by
  have inside := placed.inside
  have header := placed.header
  change 4 < left at header
  have readable : offset + 2 + 2 ≤ data.length := by omega
  exact Bytes.exists_readNat readable

theorem AtRecord.loads_inside
    (placed : AtRecord filter kernel data outer metadata parsed offset left named)
    (short : data.length < 2 ^ 31) (sized : Bytes.readNat data (offset + 2) 2 = some length)
    (fits : length ≤ left) {region : Loads.Region} (member : region ∈
      (turnLoads filter kernel (.info outer metadata offset left parsed)).regions (data ++ beyond)) :
    region.Within offset (offset + left) := by
  have whole : Loads.Stays (data ++ beyond) offset (offset + left)
      (turnLoads filter kernel (.info outer metadata offset left parsed)) fun _ => True := by
    refine (placed.stays beyond short sized fits).bind fun result _ _ => ?_
    cases result with
    | error failure => exact .give trivial
    | ok record => exact .give trivial
  exact whole.1 region member

theorem AtRecord.counters_nonneg
    (placed : AtRecord filter kernel data outer metadata parsed offset left named)
    (short : data.length < 2 ^ 31) (sized : Bytes.readNat data (offset + 2) 2 = some length)
    (fits : length ≤ left) {counter : Int}
    (member : counter ∈ counters kernel (data ++ beyond) (.info outer metadata offset left parsed)) :
    0 ≤ counter := by
  have rest : 0 ≤ outer.n := by
    rw [placed.rest]
    exact Int.natCast_nonneg _
  have positive : (0 : Int) ≤ left := Int.natCast_nonneg _
  obtain ⟨_, result, given, processes⟩ := placed.stays beyond short sized fits
  rw [counters, processEventInfo_eq_run, given] at member
  cases processes with
  | full _ =>
      rcases List.mem_pair.mp member with rfl | rfl
      · exact rest
      · exact positive
  | record _ _ =>
      simp only [Option.getD_some, List.mem_cons, List.not_mem_nil, or_false] at member
      rcases member with rfl | rfl | rfl
      · exact rest
      · exact positive
      · exact Int.natCast_nonneg _

theorem AtRecord.contained
    (placed : AtRecord filter kernel data outer metadata parsed offset left named)
    (short : data.length < 2 ^ 31) (fits : (Place.record offset left named).Fits data) :
    Contained filter kernel data beyond (.info outer metadata offset left parsed) := by
  obtain ⟨length, sized⟩ := placed.exists_length
  obtain ⟨room, more⟩ := fits length sized
  have stops : ∀ failure,
      turn filter kernel (data ++ beyond) (.info outer metadata offset left parsed) =
        .stop (.error failure) →
      failure ≠ .negativeBufferSize ∧ failure ≠ .indexOutOfRange := by
    intro failure turned
    rcases placed.turn_cases beyond short sized room more with
      ⟨outcome, same, counted, indexed, _⟩ | ⟨_, _, same, _⟩
    · obtain rfl := Turn.stop.inj (same.symm.trans turned)
      exact ⟨fun wrong => counted (wrong ▸ rfl), fun wrong => indexed (wrong ▸ rfl)⟩
    · cases same.symm.trans turned
  constructor
  · intro region member
    refine (placed.loads_inside short sized room member).mono ?_ (Nat.le_of_eq placed.ends)
    exact Nat.le_trans (Nat.le_add_right _ _) placed.behind
  · intro region member
    exact (placed.loads_inside short sized room member).mono (Nat.zero_le _) placed.inside
  · exact fun _ member => placed.counters_nonneg short sized room member
  · exact fun turned => (stops _ turned).1 rfl
  · exact fun turned => (stops _ turned).2 rfl

theorem AtRecord.follows
    (placed : AtRecord filter kernel data outer metadata parsed offset left named)
    (short : data.length < 2 ^ 31) (fits : (Place.record offset left named).Fits data) :
    Follows filter kernel data beyond (.info outer metadata offset left parsed)
      (.record offset left named) := by
  obtain ⟨length, sized⟩ := placed.exists_length
  obtain ⟨room, more⟩ := fits length sized
  have cases := placed.turn_cases beyond short sized room more
  refine ⟨placed.contained short fits, ?_, ?_⟩
  · intro after turned
    rcases cases with ⟨outcome, same, _⟩ | ⟨next, later, same, led, related⟩
    · cases same.symm.trans turned
    · obtain rfl := Turn.next.inj (same.symm.trans turned)
      exact ⟨later, .step led, related⟩
  · intro quiet later led
    rcases cases with ⟨_, _, _, _, stops⟩ | ⟨next, _, turned, same, related⟩
    · cases (stops quiet).symm.trans led
    · obtain rfl := Turn.next.inj (same.symm.trans led)
      exact ⟨next, turned, related⟩

/-- A contained turn does not panic on the byte behind the handle. -/
theorem Contained.no_error
    (contained : Contained filter kernel data beyond (.info outer metadata offset left parsed))
    (failure : Failure) :
    (processEventInfoLoads kernel outer.calls offset left).run (data ++ beyond) ≠
      some (.error failure) := by
  intro given
  obtain rfl := processEventInfoLoads_error given
  apply contained.indexed
  rw [turn_eq_run, turnLoads, Loads.run_bind, given]
  rfl

/-- A record that claims more than its event has is read outside of the buffer or counted below zero. -/
theorem AtRecord.le_of_contained
    (placed : AtRecord filter kernel data outer metadata parsed offset left named)
    (contained : Contained filter kernel data beyond (.info outer metadata offset left parsed))
    (sized : Bytes.readNat data (offset + 2) 2 = some length) : length ≤ left := by
  have inside := placed.inside
  have header := placed.header
  change 4 < left at header
  refine Nat.not_lt.mp fun longer => ?_
  have field : Bytes.readNat (data ++ beyond) (offset + 2) 2 = some length := by
    rw [Bytes.readNat_append (by omega), sized]
  cases given : (processEventInfoLoads kernel outer.calls offset left).run (data ++ beyond) with
  | none =>
      obtain ⟨region, member, outside⟩ := (Loads.run_eq_none_iff _ _).mp given
      have within := contained.inBuffer region
        (by rw [turnLoads, Loads.regions_bind]; exact List.mem_append_left _ member)
      have stop := within.2
      rw [List.length_append] at outside
      omega
  | some result =>
      cases result with
      | error failure => exact contained.no_error failure given
      | ok record =>
          have rest := processEventInfoLoads_left given (by omega) field
          have counted := contained.counted record.remainingBufferSize (by
            rw [counters, processEventInfo_eq_run, given]
            simp)
          omega

/-- The turn at a record is contained only if the record fits. -/
theorem AtRecord.fits_of_contained
    (placed : AtRecord filter kernel data outer metadata parsed offset left named)
    (short : data.length < 2 ^ 31)
    (contained : Contained filter kernel data beyond (.info outer metadata offset left parsed)) :
    (Place.record offset left named).Fits data := by
  intro length sized
  have room := placed.le_of_contained contained sized
  have inside := placed.inside
  refine ⟨room, fun full => ?_⟩
  obtain ⟨_, result, given, processes⟩ := placed.stays beyond short sized room
  cases processes with
  | full _ => exact contained.no_error _ given
  | record more _ =>
      rw [nameOffset_append (by omega)] at more
      exact more full

end Record

theorem Related.follows {config : Config} {place : Place}
    (related : Related filter kernel data config place) (short : data.length < 2 ^ 31)
    (fits : place.Fits data) : Follows filter kernel data beyond config place := by
  cases related with
  | event placed => exact placed.follows short
  | record placed => exact placed.follows short fits

theorem Related.fits_of_contained {config : Config} {place : Place}
    (related : Related filter kernel data config place) (short : data.length < 2 ^ 31)
    (contained : Contained filter kernel data beyond config) : place.Fits data := by
  cases related with
  | event placed => exact trivial
  | record placed => exact placed.fits_of_contained short contained

theorem related_start : Related filter kernel data (start data) (.event 0) :=
  .event ⟨rfl, Nat.zero_le _, rfl⟩

/-- The parser stays inside its buffer for every outcome of the system calls exactly when every
record that the lengths in the buffer lead to fits. -/
theorem parse_contained_iff {data : Bytes} (nonempty : data ≠ []) (short : data.length < 2 ^ 31)
    (beyond : Bytes) :
    (∀ filter kernel, ParsesInside filter kernel data beyond) ↔ RecordsFit data := by
  constructor
  · intro inside place walked
    let filter : Filter := ⟨[], [], true⟩
    let kernel : Kernel := ⟨fun _ _ _ => .error estale, fun _ _ => .error 0⟩
    let reached (config : Config) : Prop :=
      Passes (turn filter kernel (data ++ beyond)) (start data) config
    have quiet : Quiet filter kernel := ⟨rfl, fun _ _ _ => rfl⟩
    have contained := (inside filter kernel).2
    -- The quiet parser reaches every place of the layout.
    have follows : ∀ place config later, reached config ∧ Related filter kernel data config place →
        layout data place = .next later →
        ∃ after, Passes (turn filter kernel (data ++ beyond)) config after ∧
          reached after ∧ Related filter kernel data after later := by
      intro place config later ⟨passed, related⟩ led
      have fits := related.fits_of_contained short (contained config passed)
      obtain ⟨after, turned, kept⟩ := (related.follows short fits).backward quiet later led
      exact ⟨after, .step turned, passed.trans (.step turned), kept⟩
    obtain ⟨config, _, passed, related⟩ := walked.simulate _ follows ⟨.refl _ _, related_start⟩
    exact related.fits_of_contained short (contained config passed)
  · intro fits filter kernel
    refine ⟨List.length_pos_of_ne_nil nonempty, fun config passed => ?_⟩
    -- Every state of the parser is related to a place of the layout.
    have follows : ∀ config place after,
        Passes (layout data) (.event 0) place ∧ Related filter kernel data config place →
        turn filter kernel (data ++ beyond) config = .next after →
        ∃ later, Passes (layout data) place later ∧
          Passes (layout data) (.event 0) later ∧ Related filter kernel data after later := by
      intro config place after ⟨walked, related⟩ turned
      obtain ⟨later, led, kept⟩ := (related.follows short (fits place walked)).forward after turned
      exact ⟨later, led, walked.trans led, kept⟩
    obtain ⟨place, _, walked, related⟩ := passed.simulate _ follows ⟨.refl _ _, related_start⟩
    exact (related.follows short (fits place walked)).contained

/-- The records of a closed file keep the parser inside its buffer. -/
theorem closedFile_contained :
    ParsesInside ⟨[], [], true⟩ ⟨fun _ _ _ => .error estale, fun _ _ => .error 0⟩
      (encodeEvents [closedFile]) [] :=
  (parse_contained_iff (by decide) (by decide) []).mpr (recordsFit_encodeEvents [closedFile]) _ _

/-- The record of this event claims 100 bytes, and the event has 8 of them. -/
def overlongRecord : Bytes :=
  Bytes.ofNat 4 32 ++ Bytes.ofNat 1 3 ++ Bytes.ofNat 1 0 ++ Bytes.ofNat 2 24 ++
    Bytes.ofNat 8 fanCloseWrite ++ Bytes.ofNat 4 fanNofd ++ Bytes.ofNat 4 0 ++
    encodeHeader infoTypeFid 100 ++ Bytes.ofNat 4 0

/-- One overlong record makes the number of remaining bytes negative. -/
theorem overlongRecord_escapes : ¬ ∀ (filter : Filter) (kernel : Kernel) (buff beyond : Bytes),
    buff ≠ [] → buff.length < 2 ^ 31 → CompleteEvents buff → ParsesInside filter kernel buff beyond := by
  intro always
  let filter : Filter := ⟨[], [], false⟩
  let kernel : Kernel := ⟨fun _ _ _ => .error estale, fun _ _ => .error 0⟩
  have complete : CompleteEvents overlongRecord := by
    refine ⟨[overlongRecord], by simp, fun event member => ?_⟩
    rw [List.mem_singleton.mp member]
    exact ⟨⟨32, 3, fanCloseWrite, fanNofd⟩, by decide, by decide, by decide⟩
  have entered : turn filter kernel (overlongRecord ++ []) (start overlongRecord) =
      .next (.info ⟨0, 32, [], 0⟩ ⟨32, 3, fanCloseWrite, fanNofd⟩ 24 8 .none) := by
    decide +kernel
  have contained := (always filter kernel overlongRecord [] (by decide) (by decide) complete).2 _
    (.step entered)
  exact absurd (contained.counted (-92) (by decide +kernel)) (by decide)

end ClamavDbscan.FSWatcher
