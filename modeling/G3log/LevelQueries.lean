import G3log.LogLevels
import G3log.Lib.Purge

/-!
# Queries among the other calls

The functions of `log_levels` that read the table: the status of a level, the whole table
and its text. A log statement reads the table too, by `logLevel`, and stores an entry for a
level that is absent. The results of the other calls are compared with those of the run
from which the queries are deleted.

## Main definitions

* `Status`, `getStatus`, `getAll`, `to_string` -- the functions that read the table.
* `Call`, `levelCalls` -- a run of calls and their results, the queries hidden.
* `LevelTable.Extends` -- a table with entries that only queries put in.
* `Unmoved` -- the calls that do not see those entries.
-/

namespace G3log

open Purge

/-- `log_levels::status`. -/
inductive Status
  | Absent
  | Enabled
  | Disabled
  deriving DecidableEq, Repr

namespace LevelTable

def getStatus (level : LEVELS) (t : LevelTable) : Status :=
  match t[level.value]? with
  | none => .Absent
  | some it => if it.status then .Enabled else .Disabled

/-- A snapshot. -/
def getAll (t : LevelTable) : LevelTable := t

def to_string (levelsToPrint : LevelTable) : String :=
  levelsToPrint.toList.foldl (fun levels v =>
    levels ++ ("name: " ++ v.2.level.text ++ " level: " ++ toString v.1 ++ " status: " ++
      (if v.2.status then "1" else "0") ++ "\n")) ""

/-- A log statement passes its gate if its level is enabled. -/
theorem logLevel_fst (level : LEVELS) (t : LevelTable) :
    (t.logLevel level).1 = true ↔ t.getStatus level = .Enabled := by
  cases h : t[level.value]? with
  | none => simp [logLevel, index, getStatus, h, default]
  | some it => simp [logLevel, index, getStatus, h]

/-- The level stored under a key, if the key is present. -/
def levelAt (t : LevelTable) (k : Int) : Option LEVELS := (t[k]?).map (·.level)

theorem mem_iff_levelAt (t : LevelTable) (k : Int) : k ∈ t ↔ (t.levelAt k).isSome := by
  rw [Std.ExtTreeMap.mem_iff_isSome_getElem?, levelAt, Option.isSome_map]

theorem exists_of_levelAt {t t' : LevelTable} {k : Int} {v : LoggingLevel}
    (h : t'.levelAt k = t.levelAt k) (hv : t'[k]? = some v) :
    ∃ w, t[k]? = some w ∧ w.level = v.level := by
  rw [levelAt, hv] at h
  exact Option.map_eq_some_iff.mp h.symm

theorem getElem?_eq_of_parts {t u : LevelTable} {k : Int} (hs : t.statusAt k = u.statusAt k)
    (hl : t.levelAt k = u.levelAt k) : t[k]? = u[k]? := by
  cases ht : t[k]? with
  | none =>
      cases hu : u[k]? with
      | none => rfl
      | some w => simp [statusAt, ht, hu] at hs
  | some v =>
      cases hu : u[k]? with
      | none => simp [statusAt, ht, hu] at hs
      | some w =>
          simp only [statusAt, levelAt, ht, hu, Option.map_some, Option.some.injEq] at hs hl
          cases v
          cases w
          simp_all

/-! ## The loop of `setHighest` on levels that agree -/

/-- The entry that a visit of a key writes to holds the level it writes. -/
def SameLevels (t : LevelTable) : Prop :=
  ∀ k level, t.levelAt k = some level →
    ∀ other, t.levelAt level.value = some other → other = level

theorem levelAt_visit {t : LevelTable} (h : t.SameLevels) (L : LEVELS) (k j : Int) :
    (t.visit L k).levelAt j = t.levelAt j := by
  cases hk : t[k]? with
  | none => simp [visit, hk]
  | some v =>
      rw [levelAt, getElem?_visit t L hk]
      split
      · next hj =>
          obtain ⟨rfl, hmem⟩ := hj
          obtain ⟨w, hw⟩ := Option.isSome_iff_exists.mp
            (Std.ExtTreeMap.mem_iff_isSome_getElem?.mp hmem)
          have heq := h k v.level (by simp [levelAt, hk]) w.level (by simp [levelAt, hw])
          simp [levelAt, hw, heq]
      · rfl

theorem SameLevels.of_levelAt {t t' : LevelTable} (h : t.SameLevels)
    (heq : ∀ k, t'.levelAt k = t.levelAt k) : t'.SameLevels := by
  intro k level hk other hother
  rw [heq] at hk hother
  exact h k level hk other hother

theorem levelAt_foldl_visit {t : LevelTable} (h : t.SameLevels) (L : LEVELS) (ks : List Int)
    (j : Int) : (ks.foldl (visit L) t).levelAt j = t.levelAt j := by
  induction ks using List.reverseRecOn generalizing j with
  | nil => rfl
  | append_singleton ks k ih =>
      rw [List.foldl_concat, levelAt_visit (h.of_levelAt ih), ih]

/-- Where the levels agree the loop changes no level. -/
theorem levelAt_setHighest {t : LevelTable} (h : t.SameLevels) (L : LEVELS) (j : Int) :
    (t.setHighest L).levelAt j = t.levelAt j := by
  rw [setHighest]
  split
  · exact levelAt_foldl_visit h L t.keys j
  · rfl

/-- The status of an entry under its own value, unless a misfiled one above *INFO* enables
it below the cut-off. -/
theorem WellFiled.statusAt_setHighest {t : LevelTable} (h : WellFiled t) {L : LEVELS}
    (hL : L.value ∈ t) {k : Int} (hk : t.storedValue k = some k)
    (hm : ∀ j v, t.Misfiled j v → L.value ≤ j → L.value ≤ kInfoValue) :
    (t.setHighest L).statusAt k = some (decide (L.value ≤ k)) := by
  have hmem : k ∈ t := (t.mem_iff_storedValue k).mpr (by simp [hk])
  rw [LevelTable.setHighest, if_pos hL, h.statusAt_foldl L _ hmem]
  cases hlast : (t.writers t.keys k).getLast? with
  | none =>
      rw [List.getLast?_eq_none_iff] at hlast
      have hw := (t.mem_writers_keys k k).mpr hk
      simp [hlast] at hw
  | some j =>
      obtain ⟨hj, hmax⟩ := le_of_getLast?_writers hlast
      have hjmem : j ∈ t := (t.mem_iff_storedValue j).mpr (by simp [hj])
      simp only [Option.some.injEq, decide_eq_decide]
      rcases storedValue_or_misfiled hjmem with hf | ⟨v, hv⟩
      · rw [hf, Option.some.injEq] at hj
        rw [hj]
      · rw [hv.storedValue h, Option.some.injEq] at hj
        have hle : kInfoValue ≤ j := hmax kInfoValue (hj ▸ hk)
        constructor
        · intro hLj
          rw [← hj]
          exact hm j v hv hLj
        · intro hLk
          omega

/-! ## A table with entries of queries -/

/-- The table `t` of a run beside the table `u` of the run without its queries: the entries
of `u` are in `t`, and those that stand in `t` under another key than their own hold the
*INFO* level of the default constructor. -/
structure Extends (t u : LevelTable) : Prop where
  agree : ∀ k ∈ u, t[k]? = u[k]?
  filed : ∀ k (v : LoggingLevel), u[k]? = some v → v.level.value = k
  wellFiled : WellFiled t
  info : ∀ k v, t.Misfiled k v → v.level = G3LOG_INFO
  info_mem : kInfoValue ∈ u

theorem extends_defaults : Extends defaults defaults := by
  constructor
  · intro k _
    rfl
  · intro k v hv
    exact value_of_getElem?_defaults hv
  · exact wellFiled_defaults
  · intro k v hm
    exact absurd (value_of_getElem?_defaults hm.1) hm.2
  · exact wellFiled_defaults.info_mem

namespace Extends
variable {t u : LevelTable}

theorem mem (h : Extends t u) {k : Int} (hk : k ∈ u) : k ∈ t := by
  rw [Std.ExtTreeMap.mem_iff_isSome_getElem?] at hk ⊢
  rw [h.agree k (Std.ExtTreeMap.mem_iff_isSome_getElem?.mpr hk)]
  exact hk

theorem wellFiled_right (h : Extends t u) : WellFiled u := by
  constructor
  · intro k v hv
    exact .inl (h.filed k v hv)
  · exact h.info_mem

theorem not_misfiled_right (h : Extends t u) (k : Int) (v : LoggingLevel) : ¬ u.Misfiled k v := by
  intro hm
  exact hm.2 (h.filed k v hm.1)

/-- Both tables store an entry filed under its own value. -/
theorem insert (h : Extends t u) (v : LoggingLevel) :
    Extends (t.insert v.level.value v) (u.insert v.level.value v) := by
  constructor
  · intro k hk
    rw [Std.ExtTreeMap.getElem?_insert, Std.ExtTreeMap.getElem?_insert]
    split
    · rfl
    · next hne =>
        apply h.agree
        simpa [hne] using hk
  · intro k w hw
    rw [Std.ExtTreeMap.getElem?_insert] at hw
    split at hw
    · next heq =>
        cases hw
        simpa using heq
    · exact h.filed k w hw
  · exact h.wellFiled.insert _ _ (.inl rfl)
  · intro k w hm
    obtain ⟨hw, hne⟩ := hm
    rw [Std.ExtTreeMap.getElem?_insert] at hw
    split at hw
    · next heq =>
        cases hw
        exact absurd (by simpa using heq) hne
    · exact h.info k w ⟨hw, hne⟩
  · simp [h.info_mem]

/-- Only the larger table stores an entry, under a key that the other does not have. -/
theorem insert_left (h : Extends t u) {k : Int} (hk : k ∉ u) {v : LoggingLevel}
    (hv : v.level.value = k ∨ v.level = G3LOG_INFO) : Extends (t.insert k v) u := by
  constructor
  · intro j hj
    have hne : k ≠ j := by
      intro heq
      exact hk (heq ▸ hj)
    rw [Std.ExtTreeMap.getElem?_insert]
    simp only [Std.compare_eq_iff_eq, hne, if_false]
    exact h.agree j hj
  · exact h.filed
  · apply h.wellFiled.insert
    rcases hv with hv | hv
    · exact .inl hv
    · right
      rw [hv]
      rfl
  · intro j w hm
    obtain ⟨hw, hne⟩ := hm
    rw [Std.ExtTreeMap.getElem?_insert] at hw
    split at hw
    · next heq =>
        cases hw
        have hkj : k = j := by simpa using heq
        rcases hv with hv | hv
        · exact absurd (hv.trans hkj) hne
        · exact hv
    · exact h.info j w ⟨hw, hne⟩
  · exact h.info_mem

theorem set (h : Extends t u) (level : LEVELS) (enabled : Bool) :
    Extends (t.set level enabled) (u.set level enabled) := by
  rw [LevelTable.set, LevelTable.set]
  by_cases hu : level.value ∈ u
  · rw [if_pos hu, if_pos (h.mem hu)]
    exact h.insert ⟨enabled, level⟩
  · rw [if_neg hu]
    split
    · exact h.insert_left hu (.inl rfl)
    · exact h

theorem map_status (h : Extends t u) (b : Bool) :
    Extends (t.map fun _ v => { v with status := b })
      (u.map fun _ v => { v with status := b }) := by
  constructor
  · intro k hk
    rw [Std.ExtTreeMap.mem_map] at hk
    rw [Std.ExtTreeMap.getElem?_map, Std.ExtTreeMap.getElem?_map, h.agree k hk]
  · intro k v hv
    simp only [Std.ExtTreeMap.getElem?_map, Option.map_eq_some_iff] at hv
    obtain ⟨w, hw, rfl⟩ := hv
    exact h.filed k w hw
  · exact h.wellFiled.map_status b
  · intro k v hm
    obtain ⟨hv, hne⟩ := hm
    simp only [Std.ExtTreeMap.getElem?_map, Option.map_eq_some_iff] at hv
    obtain ⟨w, hw, rfl⟩ := hv
    exact h.info k w ⟨hw, hne⟩
  · simp [h.info_mem]

/-- A query stores the default entry, if any. -/
theorem logLevel (h : Extends t u) (level : LEVELS) : Extends (t.logLevel level).2 u := by
  cases ht : t[level.value]? with
  | some entry => simpa [LevelTable.logLevel, index, ht] using h
  | none =>
      have hu : level.value ∉ u := by
        intro hmem
        have hsome := Std.ExtTreeMap.mem_iff_isSome_getElem?.mp (h.mem hmem)
        simp [ht] at hsome
      simp only [LevelTable.logLevel, index, ht]
      exact h.insert_left hu (.inr rfl)

theorem levelAt (h : Extends t u) {k : Int} (hk : k ∈ u) : t.levelAt k = u.levelAt k := by
  rw [LevelTable.levelAt, LevelTable.levelAt, h.agree k hk]

theorem storedValue_eq (h : Extends t u) {k : Int} (hk : k ∈ u) : u.storedValue k = some k := by
  rcases storedValue_or_misfiled hk with hf | hm
  · exact hf
  · obtain ⟨v, hv⟩ := hm
    exact absurd hv (h.not_misfiled_right k v)

theorem sameLevels_right (h : Extends t u) : u.SameLevels := by
  intro k level hk other hother
  obtain ⟨v, hv, rfl⟩ := Option.map_eq_some_iff.mp hk
  rw [h.filed k v hv, hk] at hother
  exact (Option.some.inj hother).symm

/-- A misfiled entry writes the *INFO* level, so the levels agree if *INFO* itself has it. -/
theorem sameLevels (h : Extends t u)
    (hinfo : ∀ k v, t.Misfiled k v → u.levelAt kInfoValue = some G3LOG_INFO) : t.SameLevels := by
  intro k level hk other hother
  obtain ⟨v, hv, rfl⟩ := Option.map_eq_some_iff.mp hk
  by_cases hvk : v.level.value = k
  · rw [hvk, hk] at hother
    exact (Option.some.inj hother).symm
  · have hm : t.Misfiled k v := ⟨hv, hvk⟩
    have hvalue : v.level.value = kInfoValue := by
      rw [h.info k v hm]
      rfl
    rw [hvalue, h.levelAt h.info_mem, hinfo k v hm, Option.some.injEq] at hother
    rw [← hother, h.info k v hm]

/-- `setHighest` at a level that is registered. -/
theorem setHighest (h : Extends t u) {L : LEVELS} (hL : L.value ∈ u)
    (hm : ∀ k v, t.Misfiled k v → u.levelAt kInfoValue = some G3LOG_INFO ∧
      (L.value ≤ k → L.value ≤ kInfoValue)) :
    Extends (t.setHighest L) (u.setHighest L) := by
  have hsame : t.SameLevels := by
    apply h.sameLevels
    intro k v hkv
    exact (hm k v hkv).1
  have hmem : ∀ k, k ∈ u.setHighest L ↔ k ∈ u := by
    intro k
    rw [mem_iff_levelAt, levelAt_setHighest h.sameLevels_right, ← mem_iff_levelAt]
  constructor
  · intro k hk
    rw [hmem] at hk
    have hstored : t.storedValue k = some k := by
      rw [storedValue, h.agree k hk]
      exact h.storedValue_eq hk
    apply getElem?_eq_of_parts
    · rw [h.wellFiled.statusAt_setHighest (h.mem hL) hstored,
        h.wellFiled_right.statusAt_setHighest hL (h.storedValue_eq hk)]
      · intro j v hj
        exact absurd hj (h.not_misfiled_right j v)
      · intro j v hj
        exact (hm j v hj).2
    · rw [levelAt_setHighest hsame, levelAt_setHighest h.sameLevels_right, h.levelAt hk]
  · intro k v hv
    obtain ⟨w, hw, hwv⟩ := exists_of_levelAt (levelAt_setHighest h.sameLevels_right L k) hv
    rw [← hwv]
    exact h.filed k w hw
  · exact h.wellFiled.setHighest L
  · intro k v hv
    obtain ⟨w, hw, hwv⟩ := exists_of_levelAt (levelAt_setHighest hsame L k) hv.1
    rw [← hwv]
    apply h.info k w
    refine ⟨hw, ?_⟩
    rw [hwv]
    exact hv.2
  · rw [hmem]
    exact h.info_mem

end Extends
end LevelTable

/-! ## Runs of calls -/

open LevelTable

/-- A call on the level table. -/
inductive Call
  | change (op : Op)
  | getStatus (level : LEVELS)
  | getAll
  | to_string

/-- What a call returns. -/
inductive Result
  | status (status : Status)
  | levels (levels : LevelTable)
  | text (text : String)

/-- The queries that log statements make. -/
def Call.isQuery : Call → Bool
  | .change (.logLevel _) => true
  | _ => false

/-- The table and the results of the calls but the queries. -/
def levelCalls : Machine LevelTable Call Result where
  next t
    | .change op => t.apply op
    | _ => t
  out t
    | .change _ => none
    | .getStatus level => some (.status (t.getStatus level))
    | .getAll => some (.levels t.getAll)
    | .to_string => some (.text t.to_string)
  hidden := Call.isQuery
  out_hidden t call h := by
    cases call <;> simp_all [Call.isQuery]

/-- A call that does not meet an entry which only a query put in: one for the status of a
level or for the whole table does not find any, and `setHighest` is at a registered level,
the levels below *INFO* stay below the cut-off, and *INFO* is not renamed. -/
def Unmoved (t u : LevelTable) : Call → Prop
  | .change (.setHighest L) => L.value ∈ t → L.value ∈ u ∧
      ∀ k v, t.Misfiled k v → u.levelAt kInfoValue = some G3LOG_INFO ∧
        (L.value ≤ k → L.value ≤ kInfoValue)
  | .change _ => True
  | .getStatus level => level.value ∈ t → level.value ∈ u
  | .getAll => ∀ k ∈ t, k ∈ u
  | .to_string => ∀ k ∈ t, k ∈ u

theorem LevelTable.Extends.query {t u : LevelTable} {call : Call} (h : Extends t u)
    (hquery : levelCalls.hidden call = true) : Extends (levelCalls.next t call) u := by
  cases call with
  | change op =>
      cases op with
      | logLevel level => exact h.logLevel level
      | _ => cases hquery
  | _ => cases hquery

theorem LevelTable.Extends.next {t u : LevelTable} {call : Call} (h : Extends t u)
    (hquery : levelCalls.hidden call = false) (hcall : Unmoved t u call) :
    Extends (levelCalls.next t call) (levelCalls.next u call) := by
  cases call with
  | change op =>
      cases op with
      | addLogLevel level enabled => exact h.insert ⟨enabled, level⟩
      | set level enabled => exact h.set level enabled
      | enable level => exact h.set level true
      | disable level => exact h.set level false
      | enableAll => exact h.map_status true
      | disableAll => exact h.map_status false
      | reset => exact extends_defaults
      | setHighest L =>
          by_cases hL : L.value ∈ t
          · exact h.setHighest (hcall hL).1 (hcall hL).2
          · have hu : L.value ∉ u := by
              intro hmem
              exact hL (h.mem hmem)
            simpa [levelCalls, LevelTable.apply, LevelTable.setHighest, hL, hu] using h
      | logLevel level => cases hquery
  | getStatus level => exact h
  | getAll => exact h
  | to_string => exact h

/-- Without entries of queries the tables are one and the same. -/
theorem LevelTable.Extends.eq {t u : LevelTable} (h : Extends t u) (hmem : ∀ k ∈ t, k ∈ u) :
    t = u := by
  apply Std.ExtTreeMap.ext_getElem?
  intro k
  by_cases hk : k ∈ u
  · exact h.agree k hk
  · have ht : k ∉ t := by
      intro hkt
      exact hk (hmem k hkt)
    rw [Std.ExtTreeMap.getElem?_eq_none hk, Std.ExtTreeMap.getElem?_eq_none ht]

theorem LevelTable.Extends.getStatus {t u : LevelTable} (h : Extends t u) {level : LEVELS}
    (hmem : level.value ∈ t → level.value ∈ u) : t.getStatus level = u.getStatus level := by
  by_cases hu : level.value ∈ u
  · rw [LevelTable.getStatus, LevelTable.getStatus, h.agree _ hu]
  · have ht : level.value ∉ t := by
      intro hlevel
      exact hu (hmem hlevel)
    rw [LevelTable.getStatus, LevelTable.getStatus, Std.ExtTreeMap.getElem?_eq_none hu,
      Std.ExtTreeMap.getElem?_eq_none ht]

theorem LevelTable.Extends.out {t u : LevelTable} {call : Call} (h : Extends t u)
    (hcall : Unmoved t u call) : levelCalls.out t call = levelCalls.out u call := by
  cases call with
  | change op => rfl
  | getStatus level => simp [levelCalls, h.getStatus hcall]
  | getAll => simp [levelCalls, h.eq hcall]
  | to_string => simp [levelCalls, h.eq hcall]

/-- Deleting the queries of a run changes no result, if no call meets an entry that only a
query put in. -/
theorem queries_unseen (calls : List Call) (h : levelCalls.Kept Unmoved defaults defaults calls) :
    levelCalls.outputs defaults calls = levelCalls.outputs defaults (levelCalls.purge calls) := by
  apply Machine.outputs_purge (R := Extends) _ _ _ extends_defaults h
  · intro t u call hquery hext
    exact hext.query hquery
  · intro t u call hquery hcall hext
    exact hext.next hquery hcall
  · intro t u call _ hcall hext
    exact hext.out hcall

/-- The same level before and after it is registered. -/
theorem queries_unseen_registered :
    levelCalls.outputs defaults [.change (.logLevel unregistered), .getStatus G3LOG_INFO,
      .change (.disable G3LOG_INFO), .change (.addLogLevel unregistered true),
      .change (.logLevel G3LOG_INFO), .getStatus unregistered, .getStatus G3LOG_INFO] =
    levelCalls.outputs defaults [.getStatus G3LOG_INFO, .change (.disable G3LOG_INFO),
      .change (.addLogLevel unregistered true), .getStatus unregistered,
      .getStatus G3LOG_INFO] := by
  apply queries_unseen [.change (.logLevel unregistered), .getStatus G3LOG_INFO,
    .change (.disable G3LOG_INFO), .change (.addLogLevel unregistered true),
    .change (.logLevel G3LOG_INFO), .getStatus unregistered, .getStatus G3LOG_INFO]
  refine And.intro ?_ (And.intro trivial (And.intro trivial
    (And.intro ?_ (And.intro ?_ trivial))))
  all_goals
    intro _
    decide

/-- A query for a level nobody registered makes it disabled where it was absent. -/
theorem query_seen :
    ¬ ∀ calls, levelCalls.outputs defaults calls =
      levelCalls.outputs defaults (levelCalls.purge calls) := by
  intro h
  have heq := h [.change (.logLevel unregistered), .getStatus unregistered]
  have hleft : levelCalls.outputs defaults
      [.change (.logLevel unregistered), .getStatus unregistered] = [.status .Disabled] := by
    rfl
  have hright : levelCalls.outputs defaults (levelCalls.purge
      [.change (.logLevel unregistered), .getStatus unregistered]) = [.status .Absent] := by
    rfl
  rw [hleft, hright] at heq
  cases heq

end G3log
