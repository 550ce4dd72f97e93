import Mathlib.Data.Bool.Basic
import Mathlib.Data.List.Induction
import Mathlib.Data.List.TakeWhile
import Mathlib.Order.Basic

/-!
# A log of publications and subscriptions

Events are taken in one order: a message is published, a subscriber joins, or all
subscribers are dropped. A registry replays them one at a time and hands each message
to the subscribers of the moment. `delivered_eq` says what a subscriber that joins once
has been handed: the messages published after it joined and before the next drop.

## Main definitions

* `Event`, `Registry.step`, `replay` -- the registry and its replay.
* `publishedFor` -- the messages between a subscription and the next drop.
-/

namespace G3log.Broadcast

variable {ι μ : Type*}

inductive Event (ι μ : Type*)
  | publish (m : μ)
  | subscribe (s : ι)
  | clear

/-- The present subscribers, and what each subscriber ever was handed. -/
structure Registry (ι μ : Type*) where
  subscribers : List ι
  delivered : ι → List μ

def isClear : Event ι μ → Bool
  | .clear => true
  | _ => false

def published (es : List (Event ι μ)) : List μ :=
  es.filterMap fun
    | .publish m => some m
    | _ => none

@[simp] theorem published_append (es fs : List (Event ι μ)) :
    published (es ++ fs) = published es ++ published fs := by
  simp [published]

theorem published_isPrefix {es fs : List (Event ι μ)} (h : es <+: fs) :
    published es <+: published fs := by
  obtain ⟨gs, rfl⟩ := h
  exact ⟨published gs, by simp⟩

variable [DecidableEq ι]

def Registry.step (r : Registry ι μ) : Event ι μ → Registry ι μ
  | .publish m =>
      { r with delivered := fun s => r.delivered s ++ if s ∈ r.subscribers then [m] else [] }
  | .subscribe s => { r with subscribers := r.subscribers ++ [s] }
  | .clear => { r with subscribers := [] }

def replay (es : List (Event ι μ)) : Registry ι μ := es.foldl Registry.step ⟨[], fun _ => []⟩

def isSubscribe (s : ι) : Event ι μ → Bool
  | .subscribe s' => decide (s' = s)
  | _ => false

/-- The events after the first subscription of `s`. -/
def after (s : ι) (es : List (Event ι μ)) : List (Event ι μ) :=
  (es.dropWhile fun e => !isSubscribe s e).tail

/-- The messages published after `s` subscribed and before the next drop. -/
def publishedFor (s : ι) (es : List (Event ι μ)) : List μ :=
  published ((after s es).takeWhile fun e => !isClear e)

/-- `s` subscribes at most once. -/
def Once (s : ι) (es : List (Event ι μ)) : Prop := es.countP (isSubscribe s) ≤ 1

@[simp] theorem replay_concat (es : List (Event ι μ)) (e : Event ι μ) :
    replay (es ++ [e]) = (replay es).step e := by
  simp [replay]

theorem after_of_forall {s : ι} {es : List (Event ι μ)} (h : ∀ e ∈ es, isSubscribe s e = false) :
    after s es = [] := by
  have hdrop : es.dropWhile (fun e => !isSubscribe s e) = [] :=
    List.dropWhile_eq_nil_iff.mpr fun e he => by simp [h e he]
  simp [after, hdrop]

theorem after_append_of_any {s : ι} {es : List (Event ι μ)} (h : es.any (isSubscribe s) = true)
    (fs : List (Event ι μ)) : after s (es ++ fs) = after s es ++ fs := by
  induction es with
  | nil => simp at h
  | cons e es ih =>
      by_cases he : isSubscribe s e = true
      · simp [after, he]
      · have he : isSubscribe s e = false := Bool.eq_false_of_not_eq_true he
        simpa [after, List.dropWhile_cons, he] using ih (by simpa [he] using h)

theorem after_append_of_forall {s : ι} {es : List (Event ι μ)}
    (h : ∀ e ∈ es, isSubscribe s e = false) (fs : List (Event ι μ)) :
    after s (es ++ fs) = after s fs := by
  have hdrop : es.dropWhile (fun e => !isSubscribe s e) = [] :=
    List.dropWhile_eq_nil_iff.mpr fun e he => by simp [h e he]
  simp [after, List.dropWhile_append, hdrop]

theorem after_isPrefix (s : ι) (es fs : List (Event ι μ)) : after s es <+: after s (es ++ fs) := by
  by_cases h : es.any (isSubscribe s) = true
  · rw [after_append_of_any h]
    exact List.prefix_append _ _
  · have hnone : ∀ e ∈ es, isSubscribe s e = false := by simpa using h
    rw [after_of_forall hnone]
    exact List.nil_prefix

theorem takeWhile_prefix_takeWhile {α : Type*} (p : α → Bool) {l l' : List α} (h : l <+: l') :
    l.takeWhile p <+: l'.takeWhile p := by
  obtain ⟨m, rfl⟩ := h
  rw [List.takeWhile_append]
  split
  · next hlen =>
      rw [(List.takeWhile_prefix p).eq_of_length hlen]
      exact List.prefix_append _ _
  · exact List.prefix_rfl

/-- What is published for a subscriber only grows. -/
theorem publishedFor_isPrefix (s : ι) {es fs : List (Event ι μ)} (h : es <+: fs) :
    publishedFor s es <+: publishedFor s fs := by
  obtain ⟨gs, rfl⟩ := h
  exact published_isPrefix (takeWhile_prefix_takeWhile _ (after_isPrefix s es gs))

/-- A message published after `s` subscribed, with no drop since, is published for `s`. -/
theorem publishedFor_concat {s : ι} {es : List (Event ι μ)} (hs : es.any (isSubscribe s) = true)
    (hclear : ∀ e ∈ es, isClear e = false) (m : μ) :
    publishedFor s (es ++ [.publish m]) = publishedFor s es ++ [m] := by
  have hall : ∀ e ∈ after s es, isClear e = false := fun e he =>
    hclear e ((List.dropWhile_sublist _).mem (List.mem_of_mem_tail he))
  have htake : ∀ fs : List (Event ι μ), (∀ e ∈ fs, isClear e = false) →
      fs.takeWhile (fun e => !isClear e) = fs := fun fs hfs =>
    List.takeWhile_eq_self_iff.mpr fun e he => by simp [hfs e he]
  rw [publishedFor, publishedFor, after_append_of_any hs, htake _ hall, htake, published_append]
  · rfl
  · intro e he
    rcases List.mem_append.mp he with he | he
    · exact hall e he
    · obtain rfl : e = .publish m := by simpa using he
      rfl

omit [DecidableEq ι] in
theorem published_subscribe {es : List (Event ι μ)} (h : ∀ e ∈ es, ∃ s, e = .subscribe s) :
    published es = [] := by
  refine List.filterMap_eq_nil_iff.mpr fun e he => ?_
  obtain ⟨s, rfl⟩ := h e he
  rfl

/-- To a subscriber that joins before anything is published, everything up to the next drop
is published. -/
theorem publishedFor_append {s : ι} {front : List (Event ι μ)}
    (h : ∀ e ∈ front, ∃ s', e = .subscribe s') (hs : .subscribe s ∈ front)
    (rest : List (Event ι μ)) :
    publishedFor s (front ++ rest) = published ((front ++ rest).takeWhile fun e => !isClear e) := by
  have hany : front.any (isSubscribe s) = true :=
    List.any_eq_true.mpr ⟨_, hs, by simp [isSubscribe]⟩
  have hafter : ∀ e ∈ after s front, ∃ s', e = .subscribe s' := fun e he =>
    h e ((List.dropWhile_sublist _).mem (List.mem_of_mem_tail he))
  have htake : ∀ es : List (Event ι μ), (∀ e ∈ es, ∃ s', e = .subscribe s') →
      published ((es ++ rest).takeWhile fun e => !isClear e) =
        published (rest.takeWhile fun e => !isClear e) := by
    intro es hes
    rw [List.takeWhile_append_of_pos, published_append, published_subscribe hes, List.nil_append]
    intro e he
    obtain ⟨s', rfl⟩ := hes e he
    rfl
  rw [publishedFor, after_append_of_any hany, htake _ hafter, htake _ h]

/-- One more event, for a subscriber that has joined. -/
theorem publishedFor_concat_of_any {s : ι} {es : List (Event ι μ)}
    (hs : es.any (isSubscribe s) = true) (e : Event ι μ) :
    publishedFor s (es ++ [e]) =
      publishedFor s es ++ if (after s es).any isClear then [] else
        published ([e].takeWhile fun e => !isClear e) := by
  rw [publishedFor, publishedFor, after_append_of_any hs, List.takeWhile_append]
  by_cases hclear : (after s es).any isClear = true
  · obtain ⟨e', he', hc⟩ := List.any_eq_true.mp hclear
    have hlen : ((after s es).takeWhile fun e => !isClear e).length ≠ (after s es).length := by
      intro hlen
      have heq := (List.takeWhile_prefix (fun e => !isClear e)).eq_of_length hlen
      have := List.takeWhile_eq_self_iff.mp heq e' he'
      simp [hc] at this
    simp [hclear, hlen]
  · have hself : (after s es).takeWhile (fun e => !isClear e) = after s es :=
      List.takeWhile_eq_self_iff.mpr fun e he => by
        have := fun hc => hclear (List.any_eq_true.mpr ⟨e, he, hc⟩)
        simpa using this
    simp [hclear, hself]

theorem Once.of_isPrefix {s : ι} {es fs : List (Event ι μ)} (h : Once s fs) (hp : es <+: fs) :
    Once s es :=
  (hp.sublist.countP_le).trans h

/-- The replay hands a subscriber that joins once what is published for it, and has it
among the subscribers until the next drop. -/
theorem replay_spec {s : ι} {es : List (Event ι μ)} (h : Once s es) :
    (s ∈ (replay es).subscribers ↔
      es.any (isSubscribe s) = true ∧ (after s es).any isClear = false) ∧
    (replay es).delivered s = publishedFor s es := by
  induction es using List.reverseRecOn with
  | nil => simp [replay, publishedFor, after, published]
  | append_singleton es e ih =>
      obtain ⟨hmem, hdel⟩ := ih (h.of_isPrefix (List.prefix_append _ _))
      by_cases hs : es.any (isSubscribe s) = true
      · have hafter := after_append_of_any hs [e]
        cases e with
        | publish m =>
            refine ⟨?_, ?_⟩
            · simp [Registry.step, hmem, hs, hafter, isClear, isSubscribe]
            · rw [publishedFor_concat_of_any hs, replay_concat, Registry.step, ← hdel]
              by_cases hc : (after s es).any isClear = true
              · simp [hmem, hc]
              · simp [hmem, hs, Bool.eq_false_of_not_eq_true hc, isClear, published]
        | subscribe s' =>
            have hne : s' ≠ s := by
              rintro rfl
              obtain ⟨e', he', hsub⟩ := List.any_eq_true.mp hs
              have hpos : 0 < es.countP (isSubscribe s') := List.countP_pos_iff.mpr ⟨e', he', hsub⟩
              have hone : [(.subscribe s' : Event ι μ)].countP (isSubscribe s') = 1 := by
                simp [isSubscribe]
              have hcount : (es ++ [Event.subscribe s']).countP (isSubscribe s') ≤ 1 := h
              rw [List.countP_append, hone] at hcount
              omega
            refine ⟨?_, ?_⟩
            · simp [Registry.step, hmem, hs, hafter, isClear, Ne.symm hne]
            · rw [publishedFor_concat_of_any hs, replay_concat, Registry.step, ← hdel]
              simp [isClear, published]
        | clear =>
            refine ⟨?_, ?_⟩
            · simp [Registry.step, hafter, isClear]
            · rw [publishedFor_concat_of_any hs, replay_concat, Registry.step, ← hdel]
              simp [isClear, published]
      · have hnone : ∀ e ∈ es, isSubscribe s e = false := by simpa using hs
        have hnot : s ∉ (replay es).subscribers := fun hm => hs (hmem.mp hm).1
        have hempty : publishedFor s es = [] := by
          simp [publishedFor, after_of_forall hnone, published]
        have hafter := after_append_of_forall hnone [e]
        refine ⟨?_, ?_⟩
        · cases e with
          | publish m => simp [Registry.step, hnot, hs, isSubscribe]
          | subscribe s' =>
              by_cases hss : s' = s
              · subst hss
                have hnil : after s' [(.subscribe s' : Event ι μ)] = [] := by
                  simp [after, isSubscribe]
                simp [Registry.step, hafter, hnil, isSubscribe]
              · simp [Registry.step, hnot, hs, isSubscribe, hss, Ne.symm hss]
          | clear => simp [Registry.step, hs, isSubscribe]
        · rw [publishedFor, hafter]
          cases e with
          | publish m => simp [Registry.step, hnot, hdel, hempty, after, isSubscribe, published]
          | subscribe s' =>
              by_cases hss : s' = s
              · subst hss
                simp [Registry.step, hdel, hempty, after, isSubscribe, published]
              · simp [Registry.step, hdel, hempty, after, isSubscribe, published, hss]
          | clear => simp [Registry.step, hdel, hempty, after, isSubscribe, published]

theorem mem_subscribers_iff {s : ι} {es : List (Event ι μ)} (h : Once s es) :
    s ∈ (replay es).subscribers ↔
      es.any (isSubscribe s) = true ∧ (after s es).any isClear = false :=
  (replay_spec h).1

theorem delivered_eq {s : ι} {es : List (Event ι μ)} (h : Once s es) :
    (replay es).delivered s = publishedFor s es :=
  (replay_spec h).2

end G3log.Broadcast
