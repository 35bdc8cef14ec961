import EspFirmware.Spec.Output

namespace EspFirmware.Util
open Lib Spec

variable {s : LogTags} {r r' : LogRun}

theorem clearFrom_tags (l : List Nat) : (LogTags.clearFrom l s).s_log_uncached_tags =
    if l = [] then s.s_log_uncached_tags else [] := by
  induction l generalizing s with
  | nil => rfl
  | cons it next ih =>
      rw [LogTags.clearFrom, ih, if_neg (List.cons_ne_nil it next)]
      split
      next last => exact last
      next => rfl

theorem clearFrom_readFreed (l : List Nat) :
    (LogTags.clearFrom l s).readFreed = (s.readFreed || decide (l ≠ [])) := by
  induction l generalizing s with
  | nil => simp [LogTags.clearFrom]
  | cons it next ih =>
      rw [LogTags.clearFrom, ih]
      simp [LogTags.read]

theorem cleared (level : LogLevel) (a : Nat) : (s.esp_log_level_set GLOBAL_TAG level a).s_log_uncached_tags = [] := by
  rw [LogTags.esp_log_level_set, if_pos rfl, LogTags.clear_log_level_list, clearFrom_tags]
  split
  next none => exact none
  next => rfl

theorem getLevel_readFreed (tag : CString) : (s.esp_log_get_level tag).2.readFreed =
    (s.readFreed || (s.s_uncached_tag_entry_prev.any fun prev => s.freed prev)) := by
  have searched (s : LogTags) : (s.searchLevel tag).2.readFreed = s.readFreed := by
    unfold LogTags.searchLevel
    split <;> rfl
  unfold LogTags.esp_log_get_level
  cases prev : s.s_uncached_tag_entry_prev with
  | none => simp [searched]
  | some prev =>
      simp only
      split
      · rfl
      · rw [searched]
        rfl

theorem step_readFreed {call : LogCall} (made : r.step call = some r') (notRead : r'.s.readFreed = false) :
    r.s.readFreed = false ∧ GlobalFirst r.s call := by
  obtain ⟨s', ran, rfl⟩ := Option.map_eq_some_iff.mp made
  cases call with
  | write level tag =>
      cases ran
      have notRead' : (r.s.esp_log_get_level tag).2.readFreed = false := notRead
      rw [getLevel_readFreed, Bool.or_eq_false_iff] at notRead'
      exact ⟨notRead'.1, trivial⟩
  | set tag level new_entry =>
      obtain ⟨-, ⟨⟩⟩ := Option.ite_none_left_eq_some.mp ran
      simp only [LogTags.esp_log_level_set] at notRead
      by_cases isGlobal : tag = GLOBAL_TAG
      · rw [if_pos isGlobal, LogTags.clear_log_level_list, clearFrom_readFreed, Bool.or_eq_false_iff] at notRead
        exact ⟨notRead.1, fun _ => by simpa using notRead.2⟩
      · rw [if_neg isGlobal] at notRead
        refine ⟨?_, fun here => absurd here isGlobal⟩
        split at notRead <;> exact notRead

theorem run_readFreed {calls : List LogCall} (run : runLog calls r = some r') (notRead : r'.s.readFreed = false) :
    r.s.readFreed = false ∧ EachStep LogRun.step (fun r call => GlobalFirst r.s call) calls r := by
  induction calls generalizing r with
  | nil =>
      cases run
      exact ⟨notRead, trivial⟩
  | cons call rest ih =>
      rw [runLog, runSteps_cons] at run
      obtain ⟨middle, made, later⟩ := Option.bind_eq_some_iff.mp run
      obtain ⟨before, each⟩ := ih later
      obtain ⟨first, globalFirst⟩ := step_readFreed made before
      refine ⟨first, globalFirst, fun other made' => ?_⟩
      rw [made] at made'
      cases made'
      exact each

structure LogSound (s : LogTags) (level : CString → LogLevel) : Prop where
  notRead : s.readFreed = false
  notFreed : ∀ a ∈ s.s_log_uncached_tags, s.freed a = false
  distinct : ∀ a ∈ s.s_log_uncached_tags, ∀ b ∈ s.s_log_uncached_tags, (s.entry a).tag = (s.entry b).tag → a = b
  prev : ∀ a ∈ s.s_uncached_tag_entry_prev, a ∈ s.s_log_uncached_tags
  listed : ∀ a ∈ s.s_log_uncached_tags, level (s.entry a).tag = (s.entry a).level
  unlisted : ∀ tag, (∀ a ∈ s.s_log_uncached_tags, (s.entry a).tag ≠ tag) → level tag = s.s_global_tag_level

theorem getTagEntry_some {tag : CString} {a : Nat} (found : s.esp_log_get_tag_entry tag = some a) :
    a ∈ s.s_log_uncached_tags ∧ (s.entry a).tag = tag :=
  ⟨List.mem_of_find?_eq_some found, by simpa using List.find?_some found⟩

theorem getTagEntry_none {tag : CString} (missing : s.esp_log_get_tag_entry tag = none) :
    ∀ a ∈ s.s_log_uncached_tags, (s.entry a).tag ≠ tag := fun a there => by
  simpa using List.find?_eq_none.mp missing a there

theorem setEntry_entry (a : Nat) (entry : TagEntry) (b : Nat) :
    (s.setEntry a entry).entry b = if b = a then entry else s.entry b := rfl

theorem read_kept {a : Nat} (there : s.freed a = false) : s.read a = s := by
  rw [LogTags.read, there, Bool.or_false]

section
variable {level : CString → LogLevel} (sound : LogSound s level)
include sound

theorem LogSound.getLevel (tag : CString) : (s.esp_log_get_level tag).1 = level tag ∧
    ∃ prev, (∀ a ∈ prev, a ∈ s.s_log_uncached_tags) ∧
      (s.esp_log_get_level tag).2 = { s with s_uncached_tag_entry_prev := prev } := by
  have searched : (s.searchLevel tag).1 = level tag ∧ ∃ prev, (∀ a ∈ prev, a ∈ s.s_log_uncached_tags) ∧
      (s.searchLevel tag).2 = { s with s_uncached_tag_entry_prev := prev } := by
    rw [LogTags.searchLevel]
    cases found : s.esp_log_get_tag_entry tag with
    | none => exact ⟨(sound.unlisted tag (getTagEntry_none found)).symm, _, sound.prev, rfl⟩
    | some a =>
        obtain ⟨there, rfl⟩ := getTagEntry_some found
        refine ⟨(sound.listed a there).symm, some a, fun b same => ?_, rfl⟩
        cases same
        exact there
  rw [LogTags.esp_log_get_level]
  cases prev : s.s_uncached_tag_entry_prev with
  | none => exact searched
  | some a =>
      have there := sound.prev a prev
      simp only [read_kept (sound.notFreed a there)]
      by_cases here : (s.entry a).tag = tag
      · rw [if_pos here]
        refine ⟨here ▸ (sound.listed a there).symm, some a, fun b same => ?_, by rw [← prev]⟩
        cases same
        exact there
      · rw [if_neg here]
        exact searched

theorem LogSound.write (user_level : LogLevel) (tag : CString) : LogSound (s.esp_log_write user_level tag).2 level := by
  obtain ⟨-, prev, listed, same⟩ := sound.getLevel tag
  have after : (s.esp_log_write user_level tag).2 = { s with s_uncached_tag_entry_prev := prev } := same
  rw [after]
  exact ⟨sound.notRead, sound.notFreed, sound.distinct, listed, sound.listed, sound.unlisted⟩

theorem LogSound.setGlobal {new : LogLevel} (empty : s.s_log_uncached_tags = []) :
    LogSound ({ s with s_global_tag_level := new }.clear_log_level_list) fun _ => new := by
  have none : ∀ a, a ∉ s.s_log_uncached_tags := fun a there => by
    rw [empty] at there
    exact List.not_mem_nil there
  have same : { s with s_global_tag_level := new }.clear_log_level_list = { s with s_global_tag_level := new } := by
    rw [LogTags.clear_log_level_list, empty]
    rfl
  rw [same]
  exact ⟨sound.notRead, sound.notFreed, sound.distinct, sound.prev, fun a there => absurd there (none a),
    fun _ _ => rfl⟩

theorem LogSound.setEntry {new : LogLevel} {a : Nat} (there : a ∈ s.s_log_uncached_tags) :
    LogSound (s.setEntry a { s.entry a with level := new }) fun t => if t = (s.entry a).tag then new else level t := by
  have tags (b : Nat) : ((s.setEntry a { s.entry a with level := new }).entry b).tag = (s.entry b).tag := by
    unfold LogTags.setEntry
    grind
  refine ⟨sound.notRead, sound.notFreed, fun b thereB c thereC same => ?_, sound.prev, fun b thereB => ?_,
    fun t unlisted => ?_⟩
  · exact sound.distinct b thereB c thereC ((tags b).symm.trans (same.trans (tags c)))
  · rw [tags]
    by_cases here : b = a
    · rw [here, if_pos rfl, setEntry_entry, if_pos rfl]
    · rw [if_neg fun same => here (sound.distinct b thereB a there same), sound.listed b thereB]
      rw [setEntry_entry, if_neg here]
  · rw [if_neg fun same => unlisted a there ((tags a).trans same.symm)]
    exact sound.unlisted t fun b thereB same => unlisted b thereB ((tags b).trans same)

theorem LogSound.newEntry {new : LogLevel} {tag : CString} {new_entry : Nat}
    (fresh : new_entry ∉ s.s_log_uncached_tags) (missing : ∀ a ∈ s.s_log_uncached_tags, (s.entry a).tag ≠ tag) :
    LogSound { s.setEntry new_entry ⟨new, tag⟩ with
      s_log_uncached_tags := new_entry :: s.s_log_uncached_tags
      freed := fun a => if a = new_entry then false else s.freed a } fun t => if t = tag then new else level t := by
  have entries := setEntry_entry (s := s) new_entry ⟨new, tag⟩
  have kept (b : Nat) (there : b ∈ s.s_log_uncached_tags) : b ≠ new_entry := fun same => fresh (same ▸ there)
  refine ⟨sound.notRead, fun b thereB => ?_, fun b thereB c thereC same => ?_, fun b same => ?_, fun b thereB => ?_,
    fun t unlisted => ?_⟩
  · have := sound.notFreed b
    grind
  · have := sound.distinct b
    have := missing b
    have := missing c
    rw [entries, entries] at same
    grind
  · exact List.mem_cons_of_mem _ (sound.prev b same)
  · have := sound.listed b
    have := missing b
    rw [entries]
    grind
  · have other : t ≠ tag := fun same => unlisted new_entry List.mem_cons_self (by rw [entries, if_pos rfl, same])
    rw [if_neg other]
    refine sound.unlisted t fun b thereB same => unlisted b (List.mem_cons_of_mem _ thereB) ?_
    rw [entries, if_neg (kept b thereB), same]

theorem LogSound.set {new : LogLevel} {tag : CString} {new_entry : Nat} (fresh : new_entry ∉ s.s_log_uncached_tags)
    (globalFirst : GlobalFirst s (.set tag new new_entry)) :
    LogSound (s.esp_log_level_set tag new new_entry) fun t => if t = tag ∨ tag = GLOBAL_TAG then new else level t := by
  rw [LogTags.esp_log_level_set]
  by_cases isGlobal : tag = GLOBAL_TAG
  · simp only [isGlobal, or_true, if_true]
    exact sound.setGlobal (globalFirst isGlobal)
  · simp only [isGlobal, or_false, if_false]
    cases found : s.esp_log_get_tag_entry tag with
    | some a =>
        obtain ⟨there, rfl⟩ := getTagEntry_some found
        exact sound.setEntry there
    | none => exact sound.newEntry fresh (getTagEntry_none found)

end

theorem LogSound.followsSettings (sound : LogSound r.s r.level) : r.FollowsSettings where
  level := fun tag => (sound.getLevel tag).1
  notFreed := fun tag => by
    obtain ⟨-, prev, -, same⟩ := sound.getLevel tag
    rw [same]
    exact sound.notRead
  cleared := cleared

theorem LogSound.start : LogSound LogTags.start fun _ => .verbose where
  notRead := rfl
  notFreed := fun a there => absurd there List.not_mem_nil
  distinct := fun a there => absurd there List.not_mem_nil
  prev := fun a there => by cases there
  listed := fun a there => absurd there List.not_mem_nil
  unlisted := fun _ _ => rfl

def LogRun.Sound (r : LogRun) : Prop := LogSound r.s r.level

theorem LogSound.step {call : LogCall} (sound : LogSound r.s r.level) (globalFirst : GlobalFirst r.s call)
    (made : r.step call = some r') : LogSound r'.s r'.level := by
  obtain ⟨s', ran, rfl⟩ := Option.map_eq_some_iff.mp made
  cases call with
  | write level tag =>
      cases ran
      exact sound.write level tag
  | set tag level new_entry =>
      obtain ⟨fresh, ⟨⟩⟩ := Option.ite_none_left_eq_some.mp ran
      exact sound.set fresh globalFirst

/-- Levels follow the settings just if all tags are set only while none has an entry. -/
theorem follows_settings_iff (calls : List LogCall) (r : LogRun) (run : runLog calls LogRun.start = some r) :
    r.FollowsSettings ↔ EachStep LogRun.step (fun r call => GlobalFirst r.s call) calls LogRun.start := by
  constructor
  · intro follows
    have notRead := follows.notFreed []
    rw [getLevel_readFreed, Bool.or_eq_false_iff] at notRead
    exact (run_readFreed run notRead.1).2
  · intro each
    have sound : LogRun.Sound r :=
      runSteps_keeps (fun _ _ _ sound first made => LogSound.step sound first made) LogSound.start each run
    exact LogSound.followsSettings sound

theorem follows_settings_global_first :
    let calls : List LogCall :=
      [.set GLOBAL_TAG .warn 0, .set [97] .info 1, .write .info [97], .set [97] .error 2]
    ∃ r, runLog calls LogRun.start = some r ∧
      (r.FollowsSettings ↔ EachStep LogRun.step (fun r call => GlobalFirst r.s call) calls LogRun.start) :=
  ⟨_, rfl, follows_settings_iff _ _ rfl⟩

/-- After a global setting the cached entry still gives its tag's old level. -/
theorem cached_level_stays :
    ∃ r, runLog [.set [97] .debug 1, .write .info [97], .set GLOBAL_TAG .error 0] LogRun.start = some r ∧
      (r.s.esp_log_get_level [97]).1 = .debug ∧ ¬ r.FollowsSettings := by
  refine ⟨_, rfl, rfl, fun follows => ?_⟩
  exact absurd (follows.level [97]) (by decide)

end EspFirmware.Util
