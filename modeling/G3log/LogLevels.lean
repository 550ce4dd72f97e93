import Mathlib

/-!
# Log levels and the dynamic level table

`LEVELS` is a numeric value with a text. With `G3_DYNAMIC_LOGGING` the library
keeps `g_log_levels`, an ordered map from level value to `LoggingLevel`, which the
operations of `only_change_at_initialization` and `log_levels` update and which
every log statement reads through `logLevel`.

`logLevel` reads with the map's `operator[]`, so asking for an absent level stores
a default entry: disabled, and carrying the *INFO* level under the asked key.
`setHighest` walks the keys but updates through the level stored in each entry, so
it reaches an entry only if that level's value is the entry's key.

## Main definitions

* `LEVELS`, `LoggingLevel`, `LevelTable` -- the data of `loglevels.hpp`.
* `addLogLevel`, `set`, `setHighest`, `logLevel`, ... -- the operations.
* `LevelTable.Misfiled` -- an entry stored under another key than its level's value.
* `LevelTable.CutOff` -- what `setHighest` promises.
-/

namespace G3log

/-- A logging level: `value` orders the levels, `text` names it. -/
structure LEVELS where
  value : Int
  text : String
  deriving DecidableEq, Repr

def kDebugValue : Int := 100
def kInfoValue : Int := 300
def kWarningValue : Int := 500
def kErrorValue : Int := 800
def kFatalValue : Int := 1000
def kInternalFatalValue : Int := 2000

def G3LOG_DEBUG : LEVELS := ⟨kDebugValue, "DEBUG"⟩
def G3LOG_INFO : LEVELS := ⟨kInfoValue, "INFO"⟩
def G3LOG_WARNING : LEVELS := ⟨kWarningValue, "WARNING"⟩
def G3LOG_ERROR : LEVELS := ⟨kErrorValue, "ERROR"⟩
def G3LOG_FATAL : LEVELS := ⟨kFatalValue, "FATAL"⟩

/-- The levels the library uses internally, all of them fatal. -/
def CONTRACT : LEVELS := ⟨kInternalFatalValue, "CONTRACT"⟩
def FATAL_SIGNAL : LEVELS := ⟨kInternalFatalValue + 1, "FATAL_SIGNAL"⟩
def FATAL_EXCEPTION : LEVELS := ⟨kInternalFatalValue + 2, "FATAL_EXCEPTION"⟩

/-- A message at this level shuts the process down. -/
def wasFatal (level : LEVELS) : Bool := decide (G3LOG_FATAL.value ≤ level.value)

/-- A level with its enabled status. -/
structure LoggingLevel where
  status : Bool
  level : LEVELS
  deriving DecidableEq, Repr

/-- The default constructor, which `std::map::operator[]` uses: disabled *INFO*. -/
instance : Inhabited LoggingLevel := ⟨⟨false, G3LOG_INFO⟩⟩

/-- The type of `g_log_levels`, a `std::map<int, LoggingLevel>`. -/
abbrev LevelTable := Std.ExtTreeMap Int LoggingLevel

namespace LevelTable

/-- `g_log_level_defaults`: the five default levels, enabled. -/
def defaults : LevelTable :=
  .ofList <| [G3LOG_DEBUG, G3LOG_INFO, G3LOG_WARNING, G3LOG_ERROR, G3LOG_FATAL].map
    fun level => (level.value, LoggingLevel.mk true level)

/-- `operator[]`: the entry of a key, default-constructed and stored if absent. -/
def index (t : LevelTable) (key : Int) : LoggingLevel × LevelTable :=
  match t[key]? with
  | some entry => (entry, t)
  | none => (default, t.insert key default)

/-! ## Operations -/

def addLogLevel (lvl : LEVELS) (enabled : Bool) (t : LevelTable) : LevelTable :=
  t.insert lvl.value ⟨enabled, lvl⟩

def reset (_ : LevelTable) : LevelTable := defaults

/-- Only a level that is present is changed. -/
def set (level : LEVELS) (enabled : Bool) (t : LevelTable) : LevelTable :=
  if level.value ∈ t then t.insert level.value ⟨enabled, level⟩ else t

def disable (level : LEVELS) (t : LevelTable) : LevelTable := set level false t

def enable (level : LEVELS) (t : LevelTable) : LevelTable := set level true t

def disableAll (t : LevelTable) : LevelTable := t.map fun _ v => { v with status := false }

def enableAll (t : LevelTable) : LevelTable := t.map fun _ v => { v with status := true }

/-- One turn of the loop of `setHighest`. The entry is read when its key is
visited, and updated through the level it holds. -/
def visit (enabledFrom : LEVELS) (t : LevelTable) (key : Int) : LevelTable :=
  match t[key]? with
  | none => t
  | some v => if key < enabledFrom.value then disable v.level t else enable v.level t

/-- The loop adds and removes no key, so it visits the keys present at its start. -/
def setHighest (enabledFrom : LEVELS) (t : LevelTable) : LevelTable :=
  if enabledFrom.value ∈ t then t.keys.foldl (visit enabledFrom) t else t

/-- The enabled status a log statement asks for, and the table it leaves. -/
def logLevel (log_level : LEVELS) (t : LevelTable) : Bool × LevelTable :=
  let (entry, t') := t.index log_level.value
  (entry.status, t')

/-- A call that reads or changes the level table. -/
inductive Op
  | addLogLevel (level : LEVELS) (enabled : Bool)
  | set (level : LEVELS) (enabled : Bool)
  | enable (level : LEVELS)
  | disable (level : LEVELS)
  | enableAll
  | disableAll
  | reset
  | setHighest (level : LEVELS)
  | logLevel (level : LEVELS)

/-- The table a call leaves. -/
def apply (t : LevelTable) : Op → LevelTable
  | .addLogLevel level enabled => t.addLogLevel level enabled
  | .set level enabled => t.set level enabled
  | .enable level => t.enable level
  | .disable level => t.disable level
  | .enableAll => t.enableAll
  | .disableAll => t.disableAll
  | .reset => t.reset
  | .setHighest level => t.setHighest level
  | .logLevel level => (t.logLevel level).2

/-- The table after a sequence of calls from program start. -/
def after (ops : List Op) : LevelTable := ops.foldl apply defaults

/-! ## The level stored under a key -/

theorem getElem?_set (level : LEVELS) (enabled : Bool) (t : LevelTable) (k : Int) :
    (t.set level enabled)[k]? =
      if level.value = k ∧ k ∈ t then some ⟨enabled, level⟩ else t[k]? := by
  unfold set
  by_cases hk : level.value = k
  · subst hk
    by_cases hm : level.value ∈ t <;> simp [hm]
  · by_cases hm : level.value ∈ t <;>
      simp [hm, hk, Std.ExtTreeMap.getElem?_insert]

/-- The value of the level stored under a key, if the key is present. -/
def storedValue (t : LevelTable) (k : Int) : Option Int := (t[k]?).map (·.level.value)

/-- An entry stored under another key than the value of its level. -/
def Misfiled (t : LevelTable) (k : Int) (v : LoggingLevel) : Prop :=
  t[k]? = some v ∧ v.level.value ≠ k

/-- Every misfiled entry holds the *INFO* value, and *INFO* itself is present. -/
structure WellFiled (t : LevelTable) : Prop where
  stored : ∀ k (v : LoggingLevel), t[k]? = some v →
    v.level.value = k ∨ v.level.value = kInfoValue
  info_mem : kInfoValue ∈ t

theorem value_of_getElem?_defaults {k : Int} {v : LoggingLevel} (h : defaults[k]? = some v) :
    v.level.value = k := by
  have hmem : (k, v) ∈ defaults.toList :=
    Std.ExtTreeMap.mem_toList_iff_getElem?_eq_some.mpr h
  have hlist : defaults.toList = [G3LOG_DEBUG, G3LOG_INFO, G3LOG_WARNING, G3LOG_ERROR,
      G3LOG_FATAL].map fun level => (level.value, LoggingLevel.mk true level) := by decide
  rw [hlist] at hmem
  simp only [List.mem_map, Prod.mk.injEq] at hmem
  obtain ⟨level, -, rfl, rfl⟩ := hmem
  rfl

theorem wellFiled_defaults : WellFiled defaults where
  stored := by
    intro k v h
    exact .inl (value_of_getElem?_defaults h)
  info_mem := by decide

theorem WellFiled.insert {t : LevelTable} (h : WellFiled t) (k : Int) (v : LoggingLevel)
    (hv : v.level.value = k ∨ v.level.value = kInfoValue) : WellFiled (t.insert k v) where
  stored := by
    intro k' v' h'
    rw [Std.ExtTreeMap.getElem?_insert] at h'
    split at h'
    · rename_i heq
      obtain rfl : k = k' := by simpa using heq
      cases h'
      exact hv
    · exact h.stored k' v' h'
  info_mem := by simp [h.info_mem]

theorem WellFiled.set {t : LevelTable} (h : WellFiled t) (level : LEVELS) (enabled : Bool) :
    WellFiled (t.set level enabled) := by
  unfold LevelTable.set
  split
  · exact h.insert _ _ (.inl rfl)
  · exact h

theorem WellFiled.visit {t : LevelTable} (h : WellFiled t) (L : LEVELS) (k : Int) :
    WellFiled (t.visit L k) := by
  unfold LevelTable.visit
  split
  · exact h
  · split <;> exact h.set _ _

theorem WellFiled.setHighest {t : LevelTable} (h : WellFiled t) (L : LEVELS) :
    WellFiled (t.setHighest L) := by
  unfold LevelTable.setHighest
  split
  · exact List.foldlRecOn _ _ h fun t ht k _ => ht.visit L k
  · exact h

theorem WellFiled.map_status {t : LevelTable} (h : WellFiled t) (b : Bool) :
    WellFiled (t.map fun _ v => { v with status := b }) where
  stored := by
    intro k v hv
    simp only [Std.ExtTreeMap.getElem?_map, Option.map_eq_some_iff] at hv
    obtain ⟨v', hv', rfl⟩ := hv
    exact h.stored k v' hv'
  info_mem := by simp [h.info_mem]

theorem WellFiled.logLevel {t : LevelTable} (h : WellFiled t) (L : LEVELS) :
    WellFiled (t.logLevel L).2 := by
  simp only [LevelTable.logLevel, index]
  split
  · exact h
  · exact h.insert _ _ (.inr rfl)

/-- No call breaks the filing. -/
theorem WellFiled.apply {t : LevelTable} (h : WellFiled t) (op : Op) : WellFiled (t.apply op) := by
  cases op with
  | addLogLevel level enabled => exact h.insert _ _ (.inl rfl)
  | set level enabled => exact h.set level enabled
  | enable level => exact h.set level true
  | disable level => exact h.set level false
  | enableAll => exact h.map_status true
  | disableAll => exact h.map_status false
  | reset => exact wellFiled_defaults
  | setHighest level => exact h.setHighest level
  | logLevel level => exact h.logLevel level

theorem wellFiled_after (ops : List Op) : WellFiled (after ops) :=
  List.foldlRecOn ops apply wellFiled_defaults fun _ h op _ => h.apply op

/-! ## The loop of `setHighest`

Under `WellFiled` a visit changes no stored value, so which key a visit writes to
depends only on the table the loop started from. -/

theorem getElem?_visit (t : LevelTable) (L : LEVELS) {k : Int} {v : LoggingLevel}
    (hk : t[k]? = some v) (j : Int) :
    (t.visit L k)[j]? =
      if v.level.value = j ∧ j ∈ t then some ⟨decide (L.value ≤ k), v.level⟩ else t[j]? := by
  unfold visit
  simp only [hk]
  split
  · rename_i hlt
    simp [disable, getElem?_set, not_le.mpr hlt]
  · rename_i hge
    simp [enable, getElem?_set, not_lt.mp hge]

theorem WellFiled.storedValue_visit {t : LevelTable} (h : WellFiled t) (L : LEVELS) (k j : Int) :
    (t.visit L k).storedValue j = t.storedValue j := by
  cases hk : t[k]? with
  | none => simp [LevelTable.visit, hk]
  | some v =>
      simp only [storedValue, getElem?_visit t L hk]
      split
      · rename_i hj
        obtain ⟨hj, hmem⟩ := hj
        obtain ⟨w, hw⟩ := Option.isSome_iff_exists.mp
          (Std.ExtTreeMap.mem_iff_isSome_getElem?.mp hmem)
        simp only [hw, Option.map_some, Option.some.injEq]
        -- A write from another key goes to *INFO*, whose entry holds the *INFO* value.
        rcases h.stored k v hk with hv | hv <;> rcases h.stored j w hw with hw' | hw'
        · omega
        · obtain rfl : k = j := by omega
          simp_all
        · omega
        · omega
      · rfl

theorem WellFiled.foldl_visit {t : LevelTable} (h : WellFiled t) (L : LEVELS) (ks : List Int) :
    WellFiled (ks.foldl (LevelTable.visit L) t) :=
  List.foldlRecOn ks _ h fun _ ht k _ => ht.visit L k

theorem WellFiled.storedValue_foldl {t : LevelTable} (h : WellFiled t) (L : LEVELS)
    (ks : List Int) (j : Int) :
    (ks.foldl (LevelTable.visit L) t).storedValue j = t.storedValue j := by
  induction ks using List.reverseRecOn with
  | nil => rfl
  | append_singleton ks k ih =>
      rw [List.foldl_concat, (h.foldl_visit L ks).storedValue_visit, ih]

/-- The status stored under a key, if the key is present. -/
def statusAt (t : LevelTable) (k : Int) : Option Bool := (t[k]?).map (·.status)

/-- One turn writes the status of the key it reaches, and of no other. -/
theorem statusAt_visit (t : LevelTable) (L : LEVELS) (k j : Int) :
    (t.visit L k).statusAt j =
      if t.storedValue k = some j ∧ j ∈ t then some (decide (L.value ≤ k)) else t.statusAt j := by
  cases hk : t[k]? with
  | none => simp [visit, storedValue, hk]
  | some v =>
      simp only [statusAt, getElem?_visit t L hk, storedValue, hk, Option.map_some,
        Option.some.injEq]
      split <;> simp_all

theorem mem_iff_storedValue (t : LevelTable) (k : Int) :
    k ∈ t ↔ (t.storedValue k).isSome := by
  rw [Std.ExtTreeMap.mem_iff_isSome_getElem?, storedValue, Option.isSome_map]

/-- The keys of `ks` whose visit writes to the entry of `j`. -/
def writers (t : LevelTable) (ks : List Int) (j : Int) : List Int :=
  ks.filter fun k => t.storedValue k = some j

/-- The last writer of an entry decides its status. -/
theorem WellFiled.statusAt_foldl {t : LevelTable} (h : WellFiled t) (L : LEVELS)
    (ks : List Int) {j : Int} (hj : j ∈ t) :
    (ks.foldl (LevelTable.visit L) t).statusAt j =
      match (t.writers ks j).getLast? with
      | some k => some (decide (L.value ≤ k))
      | none => t.statusAt j := by
  induction ks using List.reverseRecOn with
  | nil => rfl
  | append_singleton ks k ih =>
      have hmem : j ∈ ks.foldl (LevelTable.visit L) t := by
        rw [mem_iff_storedValue, h.storedValue_foldl, ← mem_iff_storedValue]
        exact hj
      rw [List.foldl_concat, statusAt_visit, h.storedValue_foldl, ih]
      by_cases hk : t.storedValue k = some j
      · simp [writers, List.filter_append, hk, hmem]
      · simp [writers, List.filter_append, hk]

theorem pairwise_keys (t : LevelTable) : t.keys.Pairwise (· < ·) :=
  t.ordered_keys.imp fun h => Std.compare_eq_lt.mp h

/-! ## What `setHighest` promises -/

/-- Every key below `n` is disabled, and every other key enabled. -/
def CutOff (n : Int) (t : LevelTable) : Prop :=
  ∀ k v, t[k]? = some v → (k < n → v.status = false) ∧ (n ≤ k → v.status = true)

theorem cutOff_iff_statusAt (n : Int) (t : LevelTable) :
    CutOff n t ↔ ∀ k ∈ t, t.statusAt k = some (decide (n ≤ k)) := by
  simp only [CutOff, Std.ExtTreeMap.mem_iff_isSome_getElem?, Option.isSome_iff_exists, statusAt]
  constructor
  · rintro h k ⟨v, hv⟩
    by_cases hk : n ≤ k
    · simp [hv, hk, (h k v hv).2 hk]
    · simp [hv, hk, (h k v hv).1 (not_le.mp hk)]
  · intro h k v hv
    have hs := h k ⟨v, hv⟩
    simp only [hv, Option.map_some, Option.some.injEq] at hs
    exact ⟨fun hk => by simp [hs, hk], fun hk => by simp [hs, hk]⟩

/-- What the cut-off at `n` needs of the misfiled entries, which no visit reaches:
each has its status already, and none of them enables *INFO* below the cut-off. -/
def MisfiledAgree (n : Int) (t : LevelTable) : Prop :=
  ∀ k v, t.Misfiled k v → v.status = decide (n ≤ k) ∧ (n ≤ k → n ≤ kInfoValue)

theorem mem_writers_keys (t : LevelTable) (k j : Int) :
    k ∈ t.writers t.keys j ↔ t.storedValue k = some j := by
  simp only [writers, List.mem_filter, Std.ExtTreeMap.mem_keys, decide_eq_true_eq,
    mem_iff_storedValue, and_iff_right_iff_imp]
  intro h
  simp [h]

theorem le_of_getLast?_writers {t : LevelTable} {j k : Int}
    (h : (t.writers t.keys j).getLast? = some k) :
    t.storedValue k = some j ∧ ∀ k', t.storedValue k' = some j → k' ≤ k := by
  obtain ⟨ks, hks⟩ := List.getLast?_eq_some_iff.mp h
  have hsorted : (t.writers t.keys j).Pairwise (· < ·) := t.pairwise_keys.filter _
  refine ⟨(t.mem_writers_keys k j).mp (by simp [hks]), fun k' hk' => ?_⟩
  have hmem : k' ∈ ks ++ [k] := hks ▸ (t.mem_writers_keys k' j).mpr hk'
  rw [hks, List.pairwise_append] at hsorted
  rcases List.mem_append.mp hmem with hmem | hmem
  · exact (hsorted.2.2 k' hmem k (by simp)).le
  · exact (List.mem_singleton.mp hmem).le

/-- A present key is filed under its own value, or misfiled. -/
theorem storedValue_or_misfiled {t : LevelTable} {k : Int} (hk : k ∈ t) :
    t.storedValue k = some k ∨ ∃ v, t.Misfiled k v := by
  obtain ⟨v, hv⟩ := Option.isSome_iff_exists.mp (Std.ExtTreeMap.mem_iff_isSome_getElem?.mp hk)
  by_cases hval : v.level.value = k
  · left; simp [storedValue, hv, hval]
  · right; exact ⟨v, hv, hval⟩

theorem Misfiled.storedValue {t : LevelTable} (h : WellFiled t) {k : Int} {v : LoggingLevel}
    (hm : t.Misfiled k v) : t.storedValue k = some kInfoValue := by
  have hv : v.level.value = kInfoValue := (h.stored k v hm.1).resolve_left hm.2
  simp [LevelTable.storedValue, hm.1, hv]

theorem Misfiled.ne_info {t : LevelTable} (h : WellFiled t) {k : Int} {v : LoggingLevel}
    (hm : t.Misfiled k v) : k ≠ kInfoValue := by
  rintro rfl
  rcases h.stored _ v hm.1 with hv | hv <;> exact hm.2 hv

/-- No visit writes to a misfiled entry. -/
theorem Misfiled.writers_eq_nil {t : LevelTable} (h : WellFiled t) {j : Int} {v : LoggingLevel}
    (hm : t.Misfiled j v) : t.writers t.keys j = [] := by
  refine List.eq_nil_iff_forall_not_mem.mpr fun k hk => ?_
  rw [mem_writers_keys] at hk
  rcases storedValue_or_misfiled ((t.mem_iff_storedValue k).mpr (by simp [hk])) with hf | ⟨w, hw⟩
  · obtain rfl : k = j := by simpa [hk] using hf.symm
    rw [hm.storedValue h] at hk
    exact hm.ne_info h (by simpa using hk.symm)
  · rw [hw.storedValue h] at hk
    exact hm.ne_info h (by simpa using hk.symm)

/-- The status a loop over the whole table leaves under *INFO*. -/
theorem WellFiled.storedValue_info {t : LevelTable} (h : WellFiled t) :
    t.storedValue kInfoValue = some kInfoValue :=
  (storedValue_or_misfiled h.info_mem).resolve_right fun ⟨_, hm⟩ => hm.ne_info h rfl

/-- Visiting every key of a well filed table cuts it off exactly when the misfiled
entries agree with the cut-off. -/
theorem WellFiled.cutOff_foldl_iff {t : LevelTable} (h : WellFiled t) (L : LEVELS) :
    CutOff L.value (t.keys.foldl (LevelTable.visit L) t) ↔ MisfiledAgree L.value t := by
  have hmem (k : Int) : k ∈ t.keys.foldl (LevelTable.visit L) t ↔ k ∈ t := by
    rw [mem_iff_storedValue, h.storedValue_foldl, ← mem_iff_storedValue]
  rw [cutOff_iff_statusAt]
  simp only [hmem]
  constructor
  · intro hcut k v hm
    have hk : k ∈ t := by
      rw [mem_iff_storedValue, hm.storedValue h]; rfl
    have hs := hcut k hk
    rw [h.statusAt_foldl L _ hk, hm.writers_eq_nil h] at hs
    refine ⟨by simpa [statusAt, hm.1] using hs, fun hle => ?_⟩
    -- The last writer of *INFO* is no smaller than the misfiled key `k`.
    have hinfo := hcut kInfoValue h.info_mem
    rw [h.statusAt_foldl L _ h.info_mem] at hinfo
    cases hlast : (t.writers t.keys kInfoValue).getLast? with
    | none =>
        rw [List.getLast?_eq_none_iff, List.eq_nil_iff_forall_not_mem] at hlast
        exact absurd ((t.mem_writers_keys _ _).mpr (hm.storedValue h)) (hlast k)
    | some k' =>
        have hk' : k ≤ k' := (le_of_getLast?_writers hlast).2 k (hm.storedValue h)
        rw [hlast] at hinfo
        simpa [hle.trans hk'] using hinfo
  · intro hagree k hk
    rw [h.statusAt_foldl L _ hk]
    cases hlast : (t.writers t.keys k).getLast? with
    | none =>
        rw [List.getLast?_eq_none_iff] at hlast
        rcases storedValue_or_misfiled hk with hf | ⟨v, hm⟩
        · exact absurd ((t.mem_writers_keys k k).mpr hf) (by simp [hlast])
        · simpa [statusAt, hm.1] using (hagree k v hm).1
    | some k' =>
        obtain ⟨hk', hmax⟩ := le_of_getLast?_writers hlast
        simp only [Option.some.injEq, decide_eq_decide]
        rcases storedValue_or_misfiled ((t.mem_iff_storedValue k').mpr (by simp [hk']))
          with hf | ⟨v, hm⟩
        · obtain rfl : k' = k := by simpa [hk'] using hf.symm
          rfl
        · -- `k` is *INFO*, and its last writer is misfiled above it.
          obtain rfl : kInfoValue = k := by simpa [hm.storedValue h] using hk'
          have hinfo : kInfoValue ≤ k' := hmax _ h.storedValue_info
          exact ⟨(hagree k' v hm).2, fun hle => hle.trans hinfo⟩

/-- A table without misfiled entries is cut off. -/
theorem cutOff_setHighest_of_no_misfiled {t : LevelTable} (h : WellFiled t) (L : LEVELS)
    (hL : L.value ∈ t) (hm : ∀ k v, ¬ t.Misfiled k v) : CutOff L.value (t.setHighest L) := by
  rw [setHighest, if_pos hL, h.cutOff_foldl_iff]
  exact fun k v hkv => absurd hkv (hm k v)

/-- After any calls, `setHighest` at a present level disables exactly the keys below
it if and only if the entries that queries for absent levels left behind agree. -/
theorem setHighest_cutOff_iff (ops : List Op) (L : LEVELS) (hL : L.value ∈ after ops) :
    CutOff L.value ((after ops).setHighest L) ↔ MisfiledAgree L.value (after ops) := by
  rw [setHighest, if_pos hL, (wellFiled_after ops).cutOff_foldl_iff]

/-- A level nobody registered, between *INFO* and *WARNING*. -/
def unregistered : LEVELS := ⟨450, "CUSTOM"⟩

theorem setHighest_cutOff_iff_queried :
    G3LOG_WARNING.value ∈ after [.logLevel unregistered] ∧
      (CutOff G3LOG_WARNING.value ((after [.logLevel unregistered]).setHighest G3LOG_WARNING) ↔
        MisfiledAgree G3LOG_WARNING.value (after [.logLevel unregistered])) :=
  ⟨by decide, setHighest_cutOff_iff [.logLevel unregistered] G3LOG_WARNING (by decide)⟩

/-- Querying an unregistered level leaves an entry above *INFO* that
`setHighest(INFO)` does not enable. -/
theorem setHighest_misses_queried :
    ¬ ∀ (ops : List Op) (L : LEVELS), L.value ∈ after ops →
      CutOff L.value ((after ops).setHighest L) := by
  intro h
  have hcut := h [.logLevel unregistered] G3LOG_INFO (by decide) 450 ⟨false, G3LOG_INFO⟩
    (by decide)
  exact absurd (hcut.2 (by decide)) (by decide)

end LevelTable
end G3log
