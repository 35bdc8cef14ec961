import EspFirmware.Spec.Pthread

namespace EspFirmware.Pthread
open Lib Spec

/-! ## Lists of descriptors -/

theorem mem_eraseP_self {n : Nat} {l : List (EspPthread n)} (distinct : (l.map EspPthread.self).Nodup) (d : Nat)
    (p : EspPthread n) : p ∈ l.eraseP (fun q => q.self = d) ↔ p ∈ l ∧ p.self ≠ d := by
  induction l with
  | nil => simp
  | cons q l ih =>
      rw [List.map_cons, List.nodup_cons] at distinct
      by_cases here : q.self = d
      · rw [List.eraseP_cons_of_pos (by simpa using here)]
        grind
      · rw [List.eraseP_cons_of_neg (by simpa using here), List.mem_cons, ih distinct.2]
        grind

variable {n : Nat} {s : Threads n}

section
variable (s) (i j : Fin n) (pc : ThreadPc n) (value : Bool)

@[simp, grind =] theorem goto_pc : (s.goto i pc).pc j = if j = i then pc else s.pc j := rfl
@[simp, grind =] theorem goto_list : (s.goto i pc).s_threads_list = s.s_threads_list := rfl
@[simp, grind =] theorem goto_isThread : (s.goto i pc).isThread j = s.isThread j := rfl
@[simp, grind =] theorem goto_notified : (s.goto i pc).notified j = s.notified j := rfl
@[simp, grind =] theorem setNotified_notified :
    (s.setNotified i value).notified j = if j = i then value else s.notified j := rfl
@[simp, grind =] theorem setNotified_pc : (s.setNotified i value).pc j = s.pc j := rfl
@[simp, grind =] theorem setNotified_isThread : (s.setNotified i value).isThread j = s.isThread j := rfl
variable (d : Nat) (f : EspPthread n → EspPthread n)

@[simp, grind =] theorem modify_pc : (s.modify d f).pc j = s.pc j := rfl
@[simp, grind =] theorem modify_isThread : (s.modify d f).isThread j = s.isThread j := rfl
@[simp, grind =] theorem modify_notified : (s.modify d f).notified j = s.notified j := rfl

end

theorem find_erase {l : List (EspPthread n)} {i : Fin n} {d : Nat} {p : EspPthread n}
    (found : l.find? (fun q => q.handle = i) = some p) (other : p.self ≠ d) :
    (l.eraseP fun q => q.self = d).find? (fun q => q.handle = i) = some p := by
  induction l with
  | nil => simp at found
  | cons q l ih =>
      rw [List.find?_cons] at found
      grind

theorem mark_self (lives : Lives) (d : Nat) (f : Life → Life) : lives.mark d f d = f (lives d) := if_pos rfl

theorem mark_other {lives : Lives} {a d : Nat} (f : Life → Life) (other : a ≠ d) : lives.mark d f a = lives a :=
  if_neg other

theorem inserting?_eq_some {pc : ThreadPc n} {d : Nat} :
    pc.inserting? = some d ↔ ∃ p, pc = .insert p ∧ p.self = d := by
  cases pc <;> simp [ThreadPc.inserting?]

structure Changes (s s' : Threads n) (own : Fin n → Nat) (lives lives' : Lives) (g : EspPthread n → EspPthread n) :
    Prop where
  noFault : s'.fault = none
  list : s'.s_threads_list = s.s_threads_list.map g
  keeps : ∀ p, (g p).self = p.self ∧ (g p).handle = p.handle
  absent : ∀ i, s'.pc i = .absent → s'.isThread i = false
  inserting : ∀ c p, s'.pc c = .insert p ↔ s.pc c = .insert p
  starting : ∀ c h, (s'.pc c).starts? = some h →
    (s.pc c).starts? = some h ∧ s'.isThread h = s.isThread h ∧ s'.pc h = s.pc h ∧ s'.notified h = s.notified h
  stillToEnd : ∀ i, s'.StillToEnd i → s.StillToEnd i ∧ (lives' (own i)).ended = (lives (own i)).ended
  lives : ∀ d, ¬ s.Listed d → lives' d = lives d

/-- The states that an orderly run reaches. A descriptor in the list belongs to a thread that goes on, or has ended and
waits for its join. -/
structure Sound (s : Threads n) (own : Fin n → Nat) (lives : Lives) : Prop where
  noFault : s.fault = none
  distinct : (s.s_threads_list.map EspPthread.self).Nodup
  absent : ∀ i, s.pc i = .absent → s.isThread i = false
  inserting : ∀ c p, s.pc c = .insert p →
    p = ⟨own p.handle, p.handle, none, .run, false⟩ ∧ ¬ s.Listed p.self ∧ lives p.self = { created := true }
  starting : ∀ c h, (s.pc c).starts? = some h → s.isThread h = true ∧ s.pc h = .waitStart ∧ s.notified h = false
  oneStarter : ∀ c c' h, (s.pc c).starts? = some h → (s.pc c').starts? = some h → c = c'
  ownDistinct : ∀ i j, s.StillToEnd i → s.StillToEnd j → own i = own j → i = j
  alive : ∀ i, s.StillToEnd i → (lives (own i)).ended = false ∧
    ((∃ c, s.pc c = .insert ⟨own i, i, none, .run, false⟩) ∨ ∃ p, s.pthread_find i = some p ∧ p.self = own i)
  left : ∀ i, s.pc i = .leave → s.isThread i = true ∧ (lives (own i)).returned = true
  marked : ∀ p ∈ s.s_threads_list,
    (lives p.self).created = true ∧ p.detached = (lives p.self).detached ∧ (lives p.self).joined = false
  going : ∀ p ∈ s.s_threads_list, (lives p.self).ended = false →
    own p.handle = p.self ∧ s.StillToEnd p.handle ∧ p.state = .run ∧
      ∀ j, p.join_task = some j → s.pc j = .joinWait p.self ∧ s.notified j = false ∧ p.detached = false
  gone : ∀ p ∈ s.s_threads_list, (lives p.self).ended = true →
    (lives p.self).returned = true ∧ (p.join_task = none → p.state = .exit ∧ p.detached = false) ∧
      ∀ j, p.join_task = some j → s.pc j = .joinWait p.self ∧ s.notified j = true ∨ s.pc j = .joinDelete p.self
  joiners : ∀ j d, s.Joining j d → ∃ p ∈ s.s_threads_list, p.self = d ∧ p.join_task = some j
  joined : ∀ d, (lives d).joined = true → (lives d).returned = true ∧ ¬ s.Malloced d
  freed : ∀ d, (lives d).created = true → ¬ s.Malloced d →
    (lives d).ended = true ∧ ((lives d).joined = true ∨ (lives d).detached = true)

variable {own : Fin n → Nat} {lives : Lives}

section
variable (sound : Sound s own lives)
include sound

/-! ## What the steps keep -/

theorem Sound.changes {s' : Threads n} {lives' : Lives} {g : EspPthread n → EspPthread n}
    (changes : Changes s s' own lives lives' g)
    (left : ∀ i, s'.pc i = .leave → s'.isThread i = true ∧ (lives' (own i)).returned = true)
    (marked : ∀ p ∈ s.s_threads_list,
      (lives' p.self).created = true ∧ (g p).detached = (lives' p.self).detached ∧ (lives' p.self).joined = false)
    (going : ∀ p ∈ s.s_threads_list, (lives' p.self).ended = false →
      own p.handle = p.self ∧ s'.StillToEnd p.handle ∧ (g p).state = .run ∧
        ∀ j, (g p).join_task = some j → s'.pc j = .joinWait p.self ∧ s'.notified j = false ∧ (g p).detached = false)
    (gone : ∀ p ∈ s.s_threads_list, (lives' p.self).ended = true →
      (lives' p.self).returned = true ∧ ((g p).join_task = none → (g p).state = .exit ∧ (g p).detached = false) ∧
        ∀ j, (g p).join_task = some j →
          s'.pc j = .joinWait p.self ∧ s'.notified j = true ∨ s'.pc j = .joinDelete p.self)
    (joiners : ∀ j d, s'.Joining j d → ∃ p ∈ s.s_threads_list, p.self = d ∧ (g p).join_task = some j) :
    Sound s' own lives' := by
  obtain ⟨noFault, list, keeps, absent, inserting, starting, stillToEnd, same⟩ := changes
  have mem : ∀ p, p ∈ s'.s_threads_list ↔ ∃ q ∈ s.s_threads_list, g q = p := fun p => by rw [list, List.mem_map]
  have listed : ∀ d, s'.Listed d ↔ s.Listed d := by
    unfold Threads.Listed
    grind
  have malloced : ∀ d, s'.Malloced d ↔ s.Malloced d := by
    intro d
    refine or_congr (listed d) (exists_congr fun j => ?_)
    rw [inserting?_eq_some, inserting?_eq_some]
    exact exists_congr fun p => and_congr_left fun _ => inserting j p
  have find : ∀ i, s'.pthread_find i = (s.pthread_find i).map g := by
    intro i
    rw [Threads.pthread_find, list, List.find?_map]
    refine congrArg _ (congrArg (fun q => s.s_threads_list.find? q) (funext fun p => ?_))
    rw [Function.comp_apply, (keeps p).2]
  constructor
  case noFault =>
    exact noFault
  case distinct =>
    rw [list, List.map_map, show EspPthread.self ∘ g = EspPthread.self from funext fun p => (keeps p).1]
    exact sound.distinct
  case absent =>
    exact absent
  case inserting =>
    intro c p inserts
    obtain ⟨made, notListed, fresh⟩ := sound.inserting c p ((inserting c p).mp inserts)
    exact ⟨made, fun there => notListed ((listed _).mp there), by rw [same _ notListed, fresh]⟩
  case starting =>
    intro c h starts
    obtain ⟨before, thread, pc, notified⟩ := starting c h starts
    rw [thread, pc, notified]
    exact sound.starting c h before
  case oneStarter =>
    exact fun c c' h starts starts' => sound.oneStarter c c' h (starting c h starts).1 (starting c' h starts').1
  case ownDistinct =>
    exact fun i j stillI stillJ => sound.ownDistinct i j (stillToEnd i stillI).1 (stillToEnd j stillJ).1
  case alive =>
    intro i still
    obtain ⟨before, notEnded⟩ := stillToEnd i still
    rw [notEnded]
    refine ⟨(sound.alive i before).1, ?_⟩
    rcases (sound.alive i before).2 with ⟨c, making⟩ | ⟨p, found, mine⟩
    · exact .inl ⟨c, (inserting c _).mpr making⟩
    · exact .inr ⟨g p, by rw [find, found]; rfl, (keeps p).1.trans mine⟩
  case left =>
    exact left
  case marked =>
    grind
  case going =>
    grind
  case gone =>
    grind
  case joiners =>
    grind
  case joined =>
    intro d joined
    rw [malloced]
    by_cases there : s.Listed d
    · obtain ⟨p, listedP, rfl⟩ := there
      have := marked p listedP
      grind
    · rw [same d there] at joined ⊢
      exact sound.joined d joined
  case freed =>
    intro d created notMalloced
    rw [malloced] at notMalloced
    rw [same d fun there => notMalloced (.inl there)] at created ⊢
    exact sound.freed d created notMalloced

variable {i : Fin n}

theorem Sound.notify (orderly : (ThreadEvent.notify i).Orderly s) : Sound (s.setNotified i true) own lives := by
  obtain ⟨notWaits, notStarts⟩ := orderly
  refine sound.changes (g := id) ⟨sound.noFault, (List.map_id _).symm, fun p => ⟨rfl, rfl⟩, sound.absent,
    fun _ _ => Iff.rfl, ?_, fun _ still => ⟨still, rfl⟩, fun _ _ => rfl⟩ sound.left sound.marked ?_ ?_ sound.joiners
  · grind
  · intro p listed notEnded
    have := sound.going p listed notEnded
    grind [Threads.StillToEnd, Threads.Waits, ThreadPc.joinWaits]
  · intro p listed ended
    have := sound.gone p listed ended
    grind

theorem Sound.moves (pc : ThreadPc n) (value : Bool)
    (moves : (s.pc i = .absent ∨ s.pc i = .running) ∧ (pc = .absent ∨ pc = .running) ∧
        (s.pc i = .running ∧ pc = .running ∨ s.isThread i = false) ∨
      s.notified i = true ∧ (s.pc i = .waitStart ∧ pc = .running ∨ ∃ d, s.pc i = .joinWait d ∧ pc = .joinDelete d)) :
    Sound ((s.setNotified i value).goto i pc) own lives := by
  have stillToEnd : ∀ j, ((s.setNotified i value).goto i pc).StillToEnd j ↔ s.StillToEnd j := by
    unfold Threads.StillToEnd
    grind
  refine sound.changes (g := id) ⟨sound.noFault, (List.map_id _).symm, fun p => ⟨rfl, rfl⟩, ?_, ?_, ?_,
    fun j still => ⟨(stillToEnd j).mp still, rfl⟩, fun _ _ => rfl⟩ ?_ sound.marked ?_ ?_ ?_
  · grind [sound.absent]
  · grind
  · intro c h starts
    have before : (s.pc c).starts? = some h := by grind [ThreadPc.starts?]
    have := sound.starting c h before
    grind
  · grind [sound.left]
  · intro p listed notEnded
    have := sound.going p listed notEnded
    grind
  · intro p listed ended
    have := sound.gone p listed ended
    grind
  · intro j d joining
    exact sound.joiners j d (by unfold Threads.Joining at *; grind)

theorem Sound.taskEnds (ended : s.pc i = .ended) :
    Sound ({ s with isThread := fun j => if j = i then false else s.isThread j }.goto i .absent) own lives := by
  have stillToEnd (j : Fin n) : ({ s with
      isThread := fun j => if j = i then false else s.isThread j }.goto i .absent).StillToEnd j ↔ s.StillToEnd j := by
    by_cases here : j = i <;> simp [Threads.StillToEnd, Threads.goto, here, ended]
  refine sound.changes (g := id) ⟨sound.noFault, (List.map_id _).symm, fun p => ⟨rfl, rfl⟩, ?_, ?_, ?_,
    fun j still => ⟨(stillToEnd j).mp still, rfl⟩, fun _ _ => rfl⟩ ?_ sound.marked ?_ ?_ ?_
  · grind [sound.absent]
  · grind
  · intro c h starts
    have before : (s.pc c).starts? = some h := by grind [ThreadPc.starts?]
    have := sound.starting c h before
    grind
  · grind [sound.left]
  · intro p listed notEnded
    have := sound.going p listed notEnded
    grind
  · intro p listed notEnded
    have := sound.gone p listed notEnded
    grind
  · intro j d joining
    exact sound.joiners j d (by unfold Threads.Joining at *; grind)

theorem Sound.inserted {pthread : EspPthread n} (making : s.pc i = .insert pthread) :
    Sound ({ s with s_threads_list := pthread :: s.s_threads_list }.goto i (.notifyStart pthread.handle)) own
      lives := by
  have stillToEnd : ∀ j, ({ s with s_threads_list := pthread :: s.s_threads_list }.goto i
      (.notifyStart pthread.handle)).StillToEnd j ↔ s.StillToEnd j := by
    unfold Threads.StillToEnd
    grind
  obtain ⟨noFault, distinct, absent, inserting, starting, oneStarter, ownDistinct, alive, left, marked, going, gone,
    joiners, joined, freed⟩ := sound
  obtain ⟨made, notListed, fresh⟩ := inserting i pthread making
  obtain ⟨isThread, waits, notNotified⟩ := starting i pthread.handle (by rw [making]; rfl)
  have still : s.StillToEnd pthread.handle := ⟨isThread, by grind, by grind⟩
  have malloced : ∀ d, ({ s with s_threads_list := pthread :: s.s_threads_list }.goto i
      (.notifyStart pthread.handle)).Malloced d ↔ s.Malloced d := by
    intro d
    simp only [Threads.Malloced, Threads.Listed, goto_list, goto_pc, List.mem_cons, exists_eq_or_imp]
    constructor
    · rintro ((rfl | listed) | ⟨j, inserts⟩)
      · exact .inr ⟨i, by rw [making]; rfl⟩
      · exact .inl listed
      · exact .inr ⟨j, by grind [ThreadPc.inserting?]⟩
    · rintro (listed | ⟨j, inserts⟩)
      · exact .inl (.inr listed)
      · by_cases here : j = i
        · exact .inl (.inl (by grind [ThreadPc.inserting?]))
        · exact .inr ⟨j, by grind⟩
  constructor
  case noFault =>
    exact noFault
  case distinct =>
    rw [goto_list, List.map_cons, List.nodup_cons]
    exact ⟨by grind [Threads.Listed], distinct⟩
  case absent =>
    grind
  case inserting =>
    intro c p inserts
    have makes : s.pc c = .insert p := by grind
    obtain ⟨made', notListed', fresh'⟩ := inserting c p makes
    obtain ⟨isThread', waits', -⟩ := starting c p.handle (by rw [makes]; rfl)
    refine ⟨made', ?_, fresh'⟩
    rintro ⟨q, listed, same⟩
    rcases List.mem_cons.mp listed with rfl | listed
    · have := ownDistinct q.handle p.handle still ⟨isThread', by grind, by grind⟩ (by grind)
      have := oneStarter c i p.handle (by rw [makes]; rfl) (by rw [making, ← this]; rfl)
      grind
    · exact notListed' ⟨q, listed, same⟩
  case starting =>
    grind [ThreadPc.starts?]
  case oneStarter =>
    grind [ThreadPc.starts?]
  case ownDistinct =>
    grind
  case alive =>
    intro j stillJ
    obtain ⟨notEnded, ⟨c, makes⟩ | ⟨p, found, same⟩⟩ := alive j ((stillToEnd j).mp stillJ)
    · by_cases here : c = i
      · refine ⟨notEnded, .inr ⟨pthread, ?_, by grind⟩⟩
        exact List.find?_cons_of_pos (by grind)
      · exact ⟨notEnded, .inl ⟨c, by grind⟩⟩
    · by_cases here : pthread.handle = j
      · refine ⟨notEnded, .inr ⟨pthread, ?_, by grind⟩⟩
        exact List.find?_cons_of_pos (by grind)
      · refine ⟨notEnded, .inr ⟨p, ?_, same⟩⟩
        exact (List.find?_cons_of_neg (by grind)).trans found
  case left =>
    grind
  case marked =>
    grind
  case going =>
    grind
  case gone =>
    grind
  case joiners =>
    intro j d joining
    obtain ⟨p, listed, same⟩ := joiners j d (by unfold Threads.Joining at *; grind)
    exact ⟨p, List.mem_cons_of_mem _ listed, same⟩
  case joined =>
    grind
  case freed =>
    grind

theorem Sound.kept (still : s.StillToEnd i) : s.Malloced (own i) := by
  rcases (sound.alive i still).2 with ⟨c, making⟩ | ⟨p, found, same⟩
  · exact .inr ⟨c, by rw [making]; rfl⟩
  · exact .inl ⟨p, List.mem_of_find?_eq_some found, same⟩

theorem Sound.finds (still : s.StillToEnd i) (started : s.pc i ≠ .waitStart) :
    ∃ p, s.pthread_find i = some p ∧ p ∈ s.s_threads_list ∧ p.handle = i ∧ p.self = own i ∧
      (lives p.self).ended = false := by
  obtain ⟨notEnded, ⟨c, making⟩ | ⟨p, found, mine⟩⟩ := sound.alive i still
  · exact absurd (sound.starting c i (by rw [making]; rfl)).2.1 started
  · exact ⟨p, found, List.mem_of_find?_eq_some found, by simpa using List.find?_some found, mine, mine ▸ notEnded⟩

theorem Sound.unique {p q : EspPthread n} (listedP : p ∈ s.s_threads_list) (listedQ : q ∈ s.s_threads_list)
    (same : p.self = q.self) : p = q := List.inj_on_of_nodup_map sound.distinct listedP listedQ same

theorem Sound.created {xHandle : Fin n} {d : Nat} (running : s.pc i = .running) (free : s.pc xHandle = .absent)
    (fresh : ¬ s.Malloced d) :
    Sound (s.pthread_create i xHandle d) (fun j => if j = xHandle then d else own j)
      (lives.mark d fun _ => { created := true }) := by
  have other : xHandle ≠ i := by
    rintro rfl
    cases running.symm.trans free
  have away : ∀ j, s.StillToEnd j → own j ≠ d := fun j still same => fresh (same ▸ sound.kept still)
  have others : ∀ p ∈ s.s_threads_list, p.self ≠ d := fun p listed same => fresh (.inl ⟨p, listed, same⟩)
  have notHandle : ∀ j, s.StillToEnd j → j ≠ xHandle := fun j still same => still.2.1 (same ▸ free)
  have notStarts : ∀ c, (s.pc c).starts? ≠ some xHandle := by
    intro c starts
    cases free.symm.trans (sound.starting c xHandle starts).2.1
  generalize same : s.pthread_create i xHandle d = s'
  have pcs : ∀ j, s'.pc j =
      if j = i then .insert ⟨d, xHandle, none, .run, false⟩ else if j = xHandle then .waitStart else s.pc j := by
    subst same
    exact fun j => rfl
  have threads : ∀ j, s'.isThread j = if j = xHandle then true else s.isThread j := by
    subst same
    exact fun j => rfl
  have notified : ∀ j, s'.notified j = if j = xHandle then false else s.notified j := by
    subst same
    exact fun j => rfl
  have list : s'.s_threads_list = s.s_threads_list := by
    subst same
    rfl
  have noFault : s'.fault = s.fault := by
    subst same
    rfl
  have stays : ∀ j, s.pc j ≠ .running → s.pc j ≠ .absent →
      s'.pc j = s.pc j ∧ s'.isThread j = s.isThread j ∧ s'.notified j = s.notified j := by
    intro j notRunning notAbsent
    have notI : j ≠ i := fun same => notRunning (same ▸ running)
    have notX : j ≠ xHandle := fun same => notAbsent (same ▸ free)
    rw [pcs, threads, notified, if_neg notI, if_neg notX, if_neg notX, if_neg notX]
    exact ⟨rfl, rfl, rfl⟩
  have was : ∀ j, s'.pc j = .insert ⟨d, xHandle, none, .run, false⟩ ∧ j = i ∨ s'.pc j = .waitStart ∧ j = xHandle ∨
      s'.pc j = s.pc j ∧ j ≠ i ∧ j ≠ xHandle := by
    intro j
    rw [pcs]
    by_cases isI : j = i
    · exact .inl ⟨if_pos isI, isI⟩
    · rw [if_neg isI]
      by_cases isX : j = xHandle
      · exact .inr (.inl ⟨if_pos isX, isX⟩)
      · exact .inr (.inr ⟨if_neg isX, isI, isX⟩)
  have stillToEnd : ∀ j, s'.StillToEnd j ↔ j = xHandle ∨ s.StillToEnd j := by
    clear notHandle away notStarts
    unfold Threads.StillToEnd
    grind
  have malloced : ∀ a, s'.Malloced a ↔ a = d ∨ s.Malloced a := by
    intro a
    unfold Threads.Malloced Threads.Listed
    rw [list]
    constructor
    · rintro (listed | ⟨j, inserts⟩)
      · exact .inr (.inl listed)
      · rcases was j with ⟨pc, -⟩ | ⟨pc, -⟩ | ⟨pc, -⟩
        · rw [pc] at inserts
          exact .inl (Option.some_inj.mp inserts).symm
        · rw [pc] at inserts
          cases inserts
        · exact .inr (.inr ⟨j, pc ▸ inserts⟩)
    · rintro (rfl | listed | ⟨j, inserts⟩)
      · exact .inr ⟨i, by rw [pcs, if_pos rfl]; rfl⟩
      · exact .inl listed
      · obtain ⟨p, making, self⟩ := inserting?_eq_some.mp inserts
        exact .inr ⟨j, by rw [(stays j (by simp [making]) (by simp [making])).1]; exact inserts⟩
  constructor
  case noFault =>
    exact noFault.trans sound.noFault
  case distinct =>
    rw [list]
    exact sound.distinct
  case absent =>
    intro j absent
    rcases was j with ⟨pc, -⟩ | ⟨pc, -⟩ | ⟨pc, -, notX⟩
    · cases pc.symm.trans absent
    · cases pc.symm.trans absent
    · rw [threads, if_neg notX]
      exact sound.absent j (pc ▸ absent)
  case inserting =>
    intro c p inserts
    unfold Threads.Listed
    rw [list]
    rcases was c with ⟨pc, rfl⟩ | ⟨pc, -⟩ | ⟨pc, -⟩
    · cases pc.symm.trans inserts
      exact ⟨by rw [if_pos rfl], fun ⟨q, listed, self⟩ => others q listed self, mark_self ..⟩
    · cases pc.symm.trans inserts
    · have making := pc.symm.trans inserts
      obtain ⟨made, notListed, unmarked⟩ := sound.inserting c p making
      have started : (s.pc c).starts? = some p.handle := by rw [making]; rfl
      have notNew : p.handle ≠ xHandle := fun same => notStarts c (same ▸ started)
      have notD : p.self ≠ d := fun same => fresh (.inr ⟨c, by rw [making, ← same]; rfl⟩)
      rw [if_neg notNew, mark_other _ notD]
      exact ⟨made, notListed, unmarked⟩
  case starting =>
    intro c h starts
    rcases was c with ⟨pc, rfl⟩ | ⟨pc, -⟩ | ⟨pc, -⟩
    · rw [pc] at starts
      cases starts
      rw [threads, notified, pcs, if_pos rfl, if_neg other, if_pos rfl, if_pos rfl]
      exact ⟨rfl, rfl, rfl⟩
    · rw [pc] at starts
      cases starts
    · rw [pc] at starts
      have before := sound.starting c h starts
      obtain ⟨same, thread, notification⟩ := stays h (by simp [before.2.1]) (by simp [before.2.1])
      rw [same, thread, notification]
      exact before
  case oneStarter =>
    intro c c' h starts starts'
    rcases was c with ⟨pc, isI⟩ | ⟨pc, -⟩ | ⟨pc, -⟩ <;> rcases was c' with ⟨pc', isI'⟩ | ⟨pc', -⟩ | ⟨pc', -⟩ <;>
      rw [pc] at starts <;> rw [pc'] at starts'
    · exact isI.trans isI'.symm
    · cases starts'
    · cases starts
      exact absurd starts' (notStarts c')
    · cases starts
    · cases starts
    · cases starts
    · cases starts'
      exact absurd starts (notStarts c)
    · cases starts'
    · exact sound.oneStarter c c' h starts starts'
  case ownDistinct =>
    intro j k stillJ stillK
    rcases (stillToEnd j).mp stillJ with rfl | beforeJ <;> rcases (stillToEnd k).mp stillK with rfl | beforeK
    · exact fun _ => rfl
    · rw [if_pos rfl, if_neg (notHandle k beforeK)]
      exact fun same => absurd same.symm (away k beforeK)
    · rw [if_pos rfl, if_neg (notHandle j beforeJ)]
      exact fun same => absurd same (away j beforeJ)
    · rw [if_neg (notHandle j beforeJ), if_neg (notHandle k beforeK)]
      exact sound.ownDistinct j k beforeJ beforeK
  case alive =>
    intro j still
    rcases (stillToEnd j).mp still with rfl | before
    · rw [if_pos rfl, mark_self]
      exact ⟨rfl, .inl ⟨i, by rw [pcs, if_pos rfl]⟩⟩
    · rw [if_neg (notHandle j before), mark_other _ (away j before), Threads.pthread_find, list]
      refine ⟨(sound.alive j before).1, (sound.alive j before).2.imp_left ?_⟩
      rintro ⟨c, making⟩
      exact ⟨c, by rw [(stays c (by simp [making]) (by simp [making])).1]; exact making⟩
  case left =>
    intro j leaves
    rcases was j with ⟨pc, -⟩ | ⟨pc, -⟩ | ⟨pc, -, notX⟩
    · cases pc.symm.trans leaves
    · cases pc.symm.trans leaves
    · have before := pc.symm.trans leaves
      obtain ⟨thread, returned⟩ := sound.left j before
      rw [threads, if_neg notX, if_neg notX, mark_other _ (away j ⟨thread, by simp [before], by simp [before]⟩)]
      exact ⟨thread, returned⟩
  case marked =>
    intro p listed
    rw [list] at listed
    rw [mark_other _ (others p listed)]
    exact sound.marked p listed
  case going =>
    intro p listed notEnded
    rw [list] at listed
    rw [mark_other _ (others p listed)] at notEnded
    obtain ⟨mine, still, state, joins⟩ := sound.going p listed notEnded
    refine ⟨by rw [if_neg (notHandle _ still)]; exact mine, (stillToEnd _).mpr (.inr still), state, fun j joiner => ?_⟩
    have waits := joins j joiner
    obtain ⟨pc, -, notification⟩ := stays j (by simp [waits.1]) (by simp [waits.1])
    rw [pc, notification]
    exact waits
  case gone =>
    intro p listed ended
    rw [list] at listed
    rw [mark_other _ (others p listed)] at ended ⊢
    obtain ⟨returned, alone, joins⟩ := sound.gone p listed ended
    refine ⟨returned, alone, fun j joiner => ?_⟩
    have inside : s.Joining j p.self := (joins j joiner).imp_left And.left
    obtain ⟨pc, -, notification⟩ := stays j (by rcases inside with at_ | at_ <;> simp [at_])
      (by rcases inside with at_ | at_ <;> simp [at_])
    rw [pc, notification]
    exact joins j joiner
  case joiners =>
    intro j a joining
    rw [list]
    unfold Threads.Joining at joining
    rcases was j with ⟨pc, -⟩ | ⟨pc, -⟩ | ⟨pc, -⟩
    · simp [pc] at joining
    · simp [pc] at joining
    · rw [pc] at joining
      exact sound.joiners j a joining
  case joined =>
    intro a joined
    by_cases isD : a = d
    · rw [isD, mark_self] at joined
      cases joined
    · rw [mark_other _ isD] at joined ⊢
      rw [malloced]
      obtain ⟨returned, away⟩ := sound.joined a joined
      exact ⟨returned, not_or.mpr ⟨isD, away⟩⟩
  case freed =>
    intro a created notMalloced
    rw [malloced, not_or] at notMalloced
    rw [mark_other _ notMalloced.1] at created ⊢
    exact sound.freed a created notMalloced.2

theorem Sound.deleted {d : Nat} (pc : ThreadPc n) {f : Life → Life} (listed : s.Listed d)
    (marks : (f (lives d)).returned = true ∧ (f (lives d)).ended = true ∧
      ((f (lives d)).joined = true ∨ (f (lives d)).detached = true))
    (last : ∀ j, j ≠ i → ¬ s.Joining j d)
    (moves : (lives d).ended = true ∧ pc = .running ∧ (s.pc i = .running ∨ s.pc i = .joinDelete d) ∨
      s.pc i = .leave ∧ pc = .ended ∧ own i = d) :
    Sound ((s.pthread_delete d).goto i pc) own (lives.mark d f) := by
  have deletes : s.pthread_delete d = { s with s_threads_list := s.s_threads_list.eraseP fun p => p.self = d } :=
    if_pos listed
  rw [deletes]
  have mem := mem_eraseP_self sound.distinct d
  have goes : pc = .running ∨ pc = .ended := moves.imp (fun moves => moves.2.1) fun moves => moves.2.1
  have leavesOr : s.pc i = .running ∨ s.pc i = .joinDelete d ∨ s.pc i = .leave := by
    rcases moves with ⟨-, -, running | deletes⟩ | ⟨leaves, -⟩
    · exact .inl running
    · exact .inr (.inl deletes)
    · exact .inr (.inr leaves)
  generalize same : ({ s with
    s_threads_list := s.s_threads_list.eraseP fun p => p.self = d } : Threads n).goto i pc = s'
  have there : s'.pc i = pc := by
    subst same
    exact if_pos rfl
  have stays : ∀ j, j ≠ i → s'.pc j = s.pc j := by
    subst same
    exact fun j other => if_neg other
  have threads : ∀ j, s'.isThread j = s.isThread j := by
    subst same
    exact fun j => rfl
  have notified : ∀ j, s'.notified j = s.notified j := by
    subst same
    exact fun j => rfl
  have list : s'.s_threads_list = s.s_threads_list.eraseP fun p => p.self = d := by
    subst same
    rfl
  have noFault : s'.fault = s.fault := by
    subst same
    rfl
  rw [← list] at mem
  have insertStays : ∀ c p, s'.pc c = .insert p ↔ s.pc c = .insert p := by
    intro c p
    by_cases here : c = i
    · rw [here, there]
      refine iff_of_false ?_ ?_
      · rcases goes with rfl | rfl <;> simp
      · rcases leavesOr with at_ | at_ | at_ <;> simp [at_]
    · rw [stays c here]
  have starts : ∀ c h, (s'.pc c).starts? = some h → c ≠ i ∧ (s.pc c).starts? = some h := by
    intro c h starts
    by_cases here : c = i
    · rw [here, there] at starts
      rcases goes with rfl | rfl <;> cases starts
    · exact ⟨here, stays c here ▸ starts⟩
  have joining : ∀ j a, s'.Joining j a → j ≠ i ∧ s.Joining j a := by
    intro j a joining
    unfold Threads.Joining at joining
    by_cases here : j = i
    · rw [here, there] at joining
      rcases goes with rfl | rfl <;> simp at joining
    · rw [stays j here] at joining
      exact ⟨here, joining⟩
  have leaving : ∀ j, s'.pc j = .leave → s.pc j = .leave := by
    intro j leaves
    by_cases here : j = i
    · rw [here, there] at leaves
      rcases goes with rfl | rfl <;> cases leaves
    · exact stays j here ▸ leaves
  have stillToEnd : ∀ j, s'.StillToEnd j ↔ s.StillToEnd j ∧ (j = i → pc ≠ .ended) := by
    clear mem last marks
    unfold Threads.StillToEnd
    grind
  have listed' : ∀ a, s'.Listed a ↔ s.Listed a ∧ a ≠ d := by
    intro a
    unfold Threads.Listed
    constructor
    · rintro ⟨p, inside, rfl⟩
      exact ⟨⟨p, ((mem p).mp inside).1, rfl⟩, ((mem p).mp inside).2⟩
    · rintro ⟨⟨p, inside, rfl⟩, other⟩
      exact ⟨p, (mem p).mpr ⟨inside, other⟩, rfl⟩
  have malloced : ∀ a, s'.Malloced a ↔ s.Malloced a ∧ a ≠ d := by
    intro a
    have inserts : (∃ j, (s'.pc j).inserting? = some a) ↔ ∃ j, (s.pc j).inserting? = some a := by
      refine exists_congr fun j => ?_
      rw [inserting?_eq_some, inserting?_eq_some]
      exact exists_congr fun p => and_congr_left fun _ => insertStays j p
    have notInserting : (∃ j, (s.pc j).inserting? = some a) → a ≠ d := by
      rintro ⟨j, inserts⟩ rfl
      obtain ⟨p, making, rfl⟩ := inserting?_eq_some.mp inserts
      exact (sound.inserting j p making).2.1 listed
    unfold Threads.Malloced
    rw [listed', inserts, or_and_right, and_iff_left_of_imp notInserting]
  have away : ∀ j, s'.StillToEnd j → own j ≠ d := by
    intro j still mine
    have before := (stillToEnd j).mp still
    rcases moves with ⟨ended, -, -⟩ | ⟨leaves, rfl, mine'⟩
    · rw [← mine, (sound.alive j before.1).1] at ended
      cases ended
    · have leavesI : s.StillToEnd i := ⟨(sound.left i leaves).1, by simp [leaves], by simp [leaves]⟩
      exact before.2 (sound.ownDistinct j i before.1 leavesI (mine.trans mine'.symm)) rfl
  constructor
  case noFault =>
    exact noFault.trans sound.noFault
  case distinct =>
    rw [list]
    exact sound.distinct.sublist (List.eraseP_sublist.map _)
  case absent =>
    intro j absent
    rw [threads]
    by_cases here : j = i
    · rw [here, there] at absent
      rcases goes with rfl | rfl <;> cases absent
    · exact sound.absent j (stays j here ▸ absent)
  case inserting =>
    intro c p inserts
    obtain ⟨made, notListed, fresh⟩ := sound.inserting c p ((insertStays c p).mp inserts)
    have other : p.self ≠ d := fun same => notListed (same ▸ listed)
    rw [mark_other _ other]
    exact ⟨made, fun inside => notListed ((listed' _).mp inside).1, fresh⟩
  case starting =>
    intro c h starting
    have before := sound.starting c h (starts c h starting).2
    have other : h ≠ i := by
      rintro rfl
      rcases leavesOr with at_ | at_ | at_ <;> cases at_.symm.trans before.2.1
    rw [threads, notified, stays h other]
    exact before
  case oneStarter =>
    exact fun c c' h starting starting' => sound.oneStarter c c' h (starts c h starting).2 (starts c' h starting').2
  case ownDistinct =>
    exact fun j k stillJ stillK =>
      sound.ownDistinct j k ((stillToEnd j).mp stillJ).1 ((stillToEnd k).mp stillK).1
  case alive =>
    intro j still
    have other := away j still
    rw [mark_other _ other, Threads.pthread_find, list]
    refine ⟨(sound.alive j ((stillToEnd j).mp still).1).1, ?_⟩
    rcases (sound.alive j ((stillToEnd j).mp still).1).2 with ⟨c, making⟩ | ⟨p, found, mine⟩
    · exact .inl ⟨c, (insertStays c _).mpr making⟩
    · exact .inr ⟨p, find_erase found (mine ▸ other), mine⟩
  case left =>
    intro j leaves
    have before := sound.left j (leaving j leaves)
    rw [threads]
    by_cases mine : own j = d
    · rw [mine, mark_self]
      exact ⟨before.1, marks.1⟩
    · rw [mark_other _ mine]
      exact before
  case marked =>
    intro p inside
    rw [mark_other _ ((mem p).mp inside).2]
    exact sound.marked p ((mem p).mp inside).1
  case going =>
    intro p inside notEnded
    have other := ((mem p).mp inside).2
    rw [mark_other _ other] at notEnded
    obtain ⟨mine, still, state, joins⟩ := sound.going p ((mem p).mp inside).1 notEnded
    refine ⟨mine, (stillToEnd _).mpr ⟨still, ?_⟩, state, fun j joiner => ?_⟩
    · rintro here rfl
      rcases moves with ⟨-, ends, -⟩ | ⟨-, -, mine'⟩
      · cases ends
      · exact other (mine.symm.trans (here ▸ mine'))
    · have waits := joins j joiner
      have notI : j ≠ i := by
        rintro rfl
        rcases leavesOr with at_ | at_ | at_ <;> cases at_.symm.trans waits.1
      rw [stays j notI, notified]
      exact waits
  case gone =>
    intro p inside ended
    have other := ((mem p).mp inside).2
    rw [mark_other _ other] at ended ⊢
    obtain ⟨returned, alone, joins⟩ := sound.gone p ((mem p).mp inside).1 ended
    refine ⟨returned, alone, fun j joiner => ?_⟩
    have notI : j ≠ i := by
      rintro rfl
      rcases joins j joiner with ⟨waits, -⟩ | deletes
      · rcases leavesOr with at_ | at_ | at_ <;> cases at_.symm.trans waits
      · rcases leavesOr with at_ | at_ | at_
        · cases at_.symm.trans deletes
        · exact other (ThreadPc.joinDelete.inj (deletes.symm.trans at_))
        · cases at_.symm.trans deletes
    rw [stays j notI, notified]
    exact joins j joiner
  case joiners =>
    intro j a joins
    obtain ⟨other, before⟩ := joining j a joins
    obtain ⟨p, inside, rfl, joiner⟩ := sound.joiners j a before
    exact ⟨p, (mem p).mpr ⟨inside, fun isD => last j other (isD ▸ before)⟩, rfl, joiner⟩
  case joined =>
    intro a joined
    rw [malloced]
    by_cases isD : a = d
    · rw [isD, mark_self]
      exact ⟨marks.1, fun kept => kept.2 rfl⟩
    · rw [mark_other _ isD] at joined ⊢
      exact ⟨(sound.joined a joined).1, fun kept => (sound.joined a joined).2 kept.1⟩
  case freed =>
    intro a created notMalloced
    by_cases isD : a = d
    · rw [isD, mark_self]
      exact marks.2
    · rw [mark_other _ isD] at created ⊢
      exact sound.freed a created fun kept => notMalloced ((malloced a).mpr ⟨kept, isD⟩)

theorem Sound.started {xHandle : Fin n} (making : s.pc i = .notifyStart xHandle) :
    Sound ((s.setNotified xHandle true).goto i .running) own lives := by
  have starter := sound.starting i xHandle (by rw [making]; rfl)
  have only := fun c starts => sound.oneStarter c i xHandle starts (by rw [making]; rfl)
  have stillToEnd : ∀ j, ((s.setNotified xHandle true).goto i .running).StillToEnd j ↔ s.StillToEnd j := by
    unfold Threads.StillToEnd
    grind
  refine sound.changes (g := id) ⟨sound.noFault, (List.map_id _).symm, fun p => ⟨rfl, rfl⟩, ?_, ?_, ?_,
    fun j still => ⟨(stillToEnd j).mp still, rfl⟩, fun _ _ => rfl⟩ ?_ sound.marked ?_ ?_ ?_
  · grind [sound.absent]
  · grind
  · intro c h starts
    have before : (s.pc c).starts? = some h := by grind [ThreadPc.starts?]
    have := sound.starting c h before
    grind [ThreadPc.starts?]
  · grind [sound.left]
  · intro p listed notEnded
    have := sound.going p listed notEnded
    grind
  · intro p listed ended
    have := sound.gone p listed ended
    grind
  · intro j d joining
    exact sound.joiners j d (by unfold Threads.Joining at *; grind)

theorem Sound.funcReturns (running : s.pc i = .running) (thread : s.isThread i = true) :
    Sound (s.goto i .leave) own (lives.mark (own i) fun life => { life with returned := true }) := by
  have stillToEnd : ∀ j, (s.goto i .leave).StillToEnd j ↔ s.StillToEnd j := by
    unfold Threads.StillToEnd
    grind
  obtain ⟨mine, -, listed, -, isMine, -⟩ := sound.finds ⟨thread, by grind, by grind⟩ (by grind)
  refine sound.changes (g := id) ⟨sound.noFault, (List.map_id _).symm, fun p => ⟨rfl, rfl⟩, ?_, ?_, ?_,
    fun j still => ⟨(stillToEnd j).mp still, by grind [Lives.mark]⟩, ?_⟩ ?_ ?_ ?_ ?_ ?_
  · grind [sound.absent]
  · grind
  · intro c h starts
    have before : (s.pc c).starts? = some h := by grind [ThreadPc.starts?]
    have := sound.starting c h before
    grind
  · intro d notListed
    have : d ≠ own i := fun same => notListed ⟨mine, listed, isMine.trans same.symm⟩
    grind [Lives.mark]
  · intro j leaves
    have := sound.left j
    grind [Lives.mark]
  · intro p there
    have := sound.marked p there
    grind [Lives.mark]
  · intro p there notEnded
    have := sound.going p there (by grind [Lives.mark])
    grind
  · intro p there ended
    have := sound.gone p there (by grind [Lives.mark])
    grind [Lives.mark]
  · intro j d joining
    exact sound.joiners j d (by unfold Threads.Joining at *; grind)

theorem Sound.joinWaits {d : Nat} (running : s.pc i = .running) (notNotified : s.notified i = false)
    (free : ∀ p ∈ s.s_threads_list, p.self = d → p.join_task = none ∧ p.state = .run ∧ p.detached = false)
    (listed : s.Listed d) :
    Sound ((s.modify d fun p => { p with join_task := some i }).goto i (.joinWait d)) own lives := by
  have stillToEnd : ∀ j, ((s.modify d fun p => { p with join_task := some i }).goto i (.joinWait d)).StillToEnd j ↔
      s.StillToEnd j := by
    unfold Threads.StillToEnd
    grind
  refine sound.changes (g := fun p => if p.self = d then { p with join_task := some i } else p)
    ⟨sound.noFault, rfl, by grind, ?_, ?_, ?_, fun j still => ⟨(stillToEnd j).mp still, rfl⟩, fun _ _ => rfl⟩
    ?_ ?_ ?_ ?_ ?_
  · grind [sound.absent]
  · grind
  · intro c h starts
    have before : (s.pc c).starts? = some h := by grind [ThreadPc.starts?]
    have := sound.starting c h before
    grind
  · grind [sound.left]
  · intro p there
    have := sound.marked p there
    grind
  · intro p there notEnded
    have := sound.going p there notEnded
    have := free p there
    grind
  · intro p there ended
    have := sound.gone p there ended
    have := free p there
    grind
  · intro j a joining
    obtain ⟨q, there, isD⟩ := listed
    by_cases here : j = i
    · have : a = d := by unfold Threads.Joining at joining; grind
      exact ⟨q, there, by grind⟩
    · obtain ⟨p, there, rfl, joins⟩ := sound.joiners j a (by unfold Threads.Joining at *; grind)
      have := free p there
      exact ⟨p, there, by grind⟩

theorem Sound.detaches {d : Nat}
    (free : ∀ p ∈ s.s_threads_list, p.self = d → p.state = .run ∧ ∀ j, p.join_task = some j → ¬ s.Waits j)
    (listed : s.Listed d) :
    Sound (s.modify d fun p => { p with detached := true }) own
      (lives.mark d fun life => { life with detached := true }) := by
  refine sound.changes (g := fun p => if p.self = d then { p with detached := true } else p)
    ⟨sound.noFault, rfl, by grind, sound.absent, fun _ _ => Iff.rfl, ?_, ?_, ?_⟩ ?_ ?_ ?_ ?_ ?_
  · exact fun c h starts => ⟨starts, rfl, rfl, rfl⟩
  · exact fun j still => ⟨still, by grind [Lives.mark]⟩
  · intro a notListed
    have : a ≠ d := fun same => notListed (same ▸ listed)
    grind [Lives.mark]
  · intro j leaves
    have := sound.left j leaves
    exact ⟨this.1, by grind [Lives.mark]⟩
  · intro p there
    have := sound.marked p there
    grind [Lives.mark]
  · intro p there notEnded
    have := sound.going p there (by grind [Lives.mark])
    have := free p there
    grind [Threads.Waits, ThreadPc.joinWaits, Threads.StillToEnd]
  · intro p there ended
    have := sound.gone p there (by grind [Lives.mark])
    have := free p there
    grind [Lives.mark]
  · intro j a joining
    obtain ⟨p, there, rfl, joins⟩ := sound.joiners j a joining
    exact ⟨p, there, by grind⟩

theorem Sound.leaves {s' : Threads n} {g : EspPthread n → EspPthread n} {p : EspPthread n} (leaves : s.pc i = .leave)
    (listed : p ∈ s.s_threads_list) (mine : p.self = own i)
    (list : s'.s_threads_list = s.s_threads_list.map g) (keeps : ∀ q, (g q).self = q.self ∧ (g q).handle = q.handle)
    (noFault : s'.fault = none) (pcs : ∀ j, s'.pc j = if j = i then .ended else s.pc j)
    (threads : ∀ j, s'.isThread j = s.isThread j)
    (notified : ∀ j, s'.notified j = if p.join_task = some j then true else s.notified j)
    (others : ∀ q ∈ s.s_threads_list, q.self ≠ p.self → g q = q)
    (itself : (g p).join_task = p.join_task ∧ (g p).detached = false ∧ (p.join_task = none → (g p).state = .exit))
    (attached : p.detached = false) (notEnded : (lives p.self).ended = false) :
    Sound s' own (lives.mark (own i) fun life => { life with ended := true }) := by
  have stillToEnd : ∀ j, s'.StillToEnd j ↔ s.StillToEnd j ∧ j ≠ i := by
    unfold Threads.StillToEnd
    grind
  have still : s.StillToEnd i := ⟨(sound.left i leaves).1, by grind, by grind⟩
  have goingP := sound.going p listed notEnded
  refine sound.changes ⟨noFault, list, keeps, ?_, ?_, ?_, ?_, ?_⟩ ?_ ?_ ?_ ?_ ?_
  · grind [sound.absent]
  · grind
  · intro c h starts
    have before : (s.pc c).starts? = some h := by grind [ThreadPc.starts?]
    have := sound.starting c h before
    grind
  · intro j stillJ
    have before := (stillToEnd j).mp stillJ
    have : own j ≠ own i := fun same => before.2 (sound.ownDistinct j i before.1 still same)
    exact ⟨before.1, by grind [Lives.mark]⟩
  · intro d notListed
    have : d ≠ own i := fun same => notListed ⟨p, listed, mine.trans same.symm⟩
    grind [Lives.mark]
  · intro j leavesJ
    have := sound.left j
    grind [Lives.mark]
  · intro q there
    have := sound.marked q there
    by_cases same : q.self = p.self
    · cases sound.unique there listed same
      grind [Lives.mark]
    · grind [Lives.mark]
  · intro q there notEnded'
    have := sound.going q there (by grind [Lives.mark])
    grind [Lives.mark]
  · intro q there ended
    by_cases same : q.self = p.self
    · cases sound.unique there listed same
      have := sound.left i leaves
      grind [Lives.mark]
    · have := sound.gone q there (by grind [Lives.mark])
      grind [Lives.mark]
  · intro j d joining
    obtain ⟨q, there, rfl, joins⟩ := sound.joiners j d (by unfold Threads.Joining at *; grind)
    by_cases same : q.self = p.self
    · cases sound.unique there listed same
      exact ⟨p, there, rfl, itself.1.trans joins⟩
    · exact ⟨q, there, rfl, by rw [others q there same]; exact joins⟩

theorem Sound.leavesDetached {p : EspPthread n} (leaves : s.pc i = .leave) (listed : p ∈ s.s_threads_list)
    (mine : p.self = own i) (notEnded : (lives p.self).ended = false) (detached : p.detached = true) :
    Sound ((s.pthread_delete p.self).goto i .ended) own
      (lives.mark (own i) fun life => { life with ended := true }) := by
  rw [← mine]
  have returned := (sound.left i leaves).2
  have marks := sound.marked p listed
  refine sound.deleted .ended ⟨p, listed, rfl⟩ (by grind) ?_ (.inr ⟨leaves, rfl, mine.symm⟩)
  intro j other joining
  obtain ⟨q, listedQ, same, joins⟩ := sound.joiners j p.self joining
  have := sound.unique listedQ listed same
  have := (sound.going p listed notEnded).2.2.2 j (by grind)
  grind

theorem Sound.ends (leaves : s.pc i = .leave) :
    Sound ((s.leave i).goto i .ended) own (lives.mark (own i) fun life => { life with ended := true }) := by
  obtain ⟨p, found, listed, -, mine, notEnded⟩ :=
    sound.finds ⟨(sound.left i leaves).1, by grind, by grind⟩ (by grind)
  rw [Threads.leave, found]
  simp only []
  cases detached : p.detached with
  | true => exact sound.leavesDetached leaves listed mine notEnded detached
  | false =>
      rw [if_neg (by simp)]
      cases joins : p.join_task with
      | some joiner =>
          exact sound.leaves (g := id) leaves listed mine (List.map_id _).symm (fun _ => ⟨rfl, rfl⟩) sound.noFault
            (fun _ => rfl) (fun _ => rfl) (by grind) (fun _ _ _ => rfl) ⟨rfl, detached, by grind⟩ detached notEnded
      | none =>
          exact sound.leaves (g := fun q => if q.self = p.self then { q with state := .exit } else q) leaves listed mine
            rfl (by grind) sound.noFault (fun _ => rfl) (fun _ => rfl) (by grind) (by grind) (by grind)
            detached notEnded

end

theorem goto_same {i : Fin n} {pc : ThreadPc n} (there : s.pc i = pc) : s.goto i pc = s := by
  unfold Threads.goto
  congr 1
  funext j
  split
  next here => rw [here, there]
  next => rfl

theorem setNotified_same {i : Fin n} {value : Bool} (there : s.notified i = value) : s.setNotified i value = s := by
  unfold Threads.setNotified
  congr 1
  funext j
  split
  next here => rw [here, there]
  next => rfl

theorem joinVerdict_found {i : Fin n} {d : Nat} {verdict : JoinVerdict} (judged : s.joinVerdict i d = verdict)
    (accepts : ∀ ret, verdict ≠ .refused ret) :
    ∃ p, s.findDesc d = some p ∧ p ∈ s.s_threads_list ∧ p.self = d ∧ p.join_task = none ∧
      verdict = if p.state = .run then .wait else .delete := by
  unfold Threads.joinVerdict at judged
  cases found : s.findDesc d with
  | none =>
      rw [found] at judged
      exact absurd judged.symm (accepts _)
  | some p =>
      rw [found] at judged
      refine ⟨p, rfl, List.mem_of_find?_eq_some found, by simpa using List.find?_some found, ?_⟩
      simp only at judged
      cases joins : p.join_task <;> grind

theorem Sound.join (sound : Sound s own lives) {i : Fin n} {d : Nat} (running : s.pc i = .running)
    (orderly : (ThreadEvent.join i d).Orderly s) :
    Sound (s.pthread_join i d) own
      (if s.joinVerdict i d = .delete then lives.mark d fun life => { life with joined := true } else lives) := by
  unfold Threads.pthread_join
  cases judged : s.joinVerdict i d with
  | refused ret => exact sound
  | wait =>
      obtain ⟨p, -, listed, rfl, alone, state⟩ := joinVerdict_found judged (fun ret => by simp)
      have free := orderly judged
      refine sound.joinWaits running free.1 (fun q there same => ?_) ⟨p, listed, rfl⟩
      cases sound.unique there listed same
      exact ⟨alone, by grind, free.2 p listed rfl⟩
  | delete =>
      obtain ⟨p, -, listed, rfl, alone, state⟩ := joinVerdict_found judged (fun ret => by simp)
      have ended : (lives p.self).ended = true := by
        by_contra notEnded
        have := sound.going p listed (by simpa using notEnded)
        grind
      have gone := sound.gone p listed ended
      rw [if_pos rfl]
      have deleted := sound.deleted (i := i) .running (f := fun life => { life with joined := true })
        ⟨p, listed, rfl⟩ (by grind) (fun j other joining => ?_) (.inl ⟨ended, rfl, .inl running⟩)
      · rwa [goto_same (by unfold Threads.pthread_delete; split <;> exact running)] at deleted
      · obtain ⟨q, there, same, joins⟩ := sound.joiners j p.self joining
        cases sound.unique there listed same
        grind

theorem Sound.detach (sound : Sound s own lives) {i : Fin n} {d : Nat} (orderly : (ThreadEvent.detach i d).Orderly s) :
    Sound (s.pthread_detach d) own
      (if s.Listed d then lives.mark d fun life => { life with detached := true } else lives) := by
  unfold Threads.pthread_detach
  cases found : s.findDesc d with
  | none =>
      have notListed : ¬ s.Listed d := by
        rintro ⟨p, there, same⟩
        exact List.find?_eq_none.mp found p there (by simpa using same)
      rw [if_neg notListed]
      exact sound
  | some p =>
      have listed : s.Listed d := ⟨p, List.mem_of_find?_eq_some found, by simpa using List.find?_some found⟩
      rw [if_pos listed]
      exact sound.detaches orderly listed

theorem Sound.joinDeletes (sound : Sound s own lives) {i : Fin n} {d : Nat} (deletes : s.pc i = .joinDelete d) :
    Sound ((s.pthread_delete d).goto i .running) own (lives.mark d fun life => { life with joined := true }) := by
  obtain ⟨p, listed, rfl, joins⟩ := sound.joiners i d (.inr deletes)
  have ended : (lives p.self).ended = true := by
    by_contra notEnded
    have := (sound.going p listed (by simpa using notEnded)).2.2.2 i joins
    grind
  have gone := sound.gone p listed ended
  refine sound.deleted .running ⟨p, listed, rfl⟩ (by grind) (fun j other joining => ?_)
    (.inl ⟨ended, rfl, .inr deletes⟩)
  obtain ⟨q, there, same, joins'⟩ := sound.joiners j p.self joining
  cases sound.unique there listed same
  grind

theorem Sound.start (tasks : Fin n → Bool) (own : Fin n → Nat) : Sound (Threads.start tasks) own fun _ => {} := by
  have pcs : ∀ i, (Threads.start tasks).pc i = .running ∨ (Threads.start tasks).pc i = .absent := by
    intro i
    unfold Threads.start
    grind
  have plain : ∀ i, ¬ (Threads.start tasks).StillToEnd i := fun i still => by cases still.1
  refine ⟨rfl, List.nodup_nil, fun i _ => rfl, ?_, ?_, ?_, ?_, ?_, ?_, ?_, ?_, ?_, ?_, ?_, ?_⟩
  · grind
  · grind [ThreadPc.starts?]
  · grind [ThreadPc.starts?]
  · exact fun i j still => absurd still (plain i)
  · exact fun i still => absurd still (plain i)
  · grind
  · exact fun p listed => absurd listed List.not_mem_nil
  · exact fun p listed => absurd listed List.not_mem_nil
  · exact fun p listed => absurd listed List.not_mem_nil
  · grind [Threads.Joining]
  · simp
  · simp

theorem notifyWait_eq_some {i : Fin n} {pc : ThreadPc n} {s' : Threads n} (made : s.notifyWait i pc = some s') :
    s.notified i = true ∧ s' = (s.setNotified i false).goto i pc := by
  unfold Threads.notifyWait at made
  grind

theorem Sound.step {r r' : ThreadRun n} {e : ThreadEvent n} (sound : Sound r.s r.own r.lives)
    (orderly : e.Orderly r.s) (made : r.step e = some r') : Sound r'.s r'.own r'.lives := by
  obtain ⟨s', ran, rfl⟩ := Option.map_eq_some_iff.mp made
  unfold ThreadEvent.run at ran
  rw [if_neg (by simpa using sound.noFault)] at ran
  cases e with
  | create i xHandle pthread =>
      obtain ⟨⟨running, free, fresh⟩, ⟨⟩⟩ := Option.ite_none_right_eq_some.mp ran
      exact sound.created running free fresh
  | join i thread =>
      obtain ⟨running, ⟨⟩⟩ := Option.ite_none_right_eq_some.mp ran
      exact sound.join running orderly
  | detach i thread =>
      obtain ⟨running, ⟨⟩⟩ := Option.ite_none_right_eq_some.mp ran
      exact sound.detach orderly
  | funcReturns i =>
      obtain ⟨⟨running, thread⟩, ⟨⟩⟩ := Option.ite_none_right_eq_some.mp ran
      exact sound.funcReturns running thread
  | notify i =>
      obtain ⟨-, ⟨⟩⟩ := Option.ite_none_left_eq_some.mp ran
      exact sound.notify orderly
  | takeNotification i =>
      obtain ⟨running, waits⟩ := Option.ite_none_right_eq_some.mp ran
      obtain ⟨-, rfl⟩ := notifyWait_eq_some waits
      exact sound.moves .running false (.inl ⟨.inr running, .inr rfl, .inl ⟨running, rfl⟩⟩)
  | taskCreate i =>
      obtain ⟨absent, ⟨⟩⟩ := Option.ite_none_right_eq_some.mp ran
      exact sound.moves .running false (.inl ⟨.inl absent, .inr rfl, .inr (sound.absent i absent)⟩)
  | taskDelete i =>
      obtain ⟨⟨running, plain⟩, ⟨⟩⟩ := Option.ite_none_right_eq_some.mp ran
      have moved := sound.moves .absent (r.s.notified i) (.inl ⟨.inr running, .inl rfl, .inr plain⟩)
      rwa [setNotified_same rfl] at moved
  | step i =>
      simp only [Threads.next] at ran
      simp only [ThreadRun.marks, ThreadRun.owns]
      cases at_ : r.s.pc i with
      | absent | running =>
          rw [at_] at ran
          cases ran
      | waitStart =>
          rw [at_] at ran
          obtain ⟨notified, rfl⟩ := notifyWait_eq_some ran
          exact sound.moves .running false (.inr ⟨notified, .inl ⟨at_, rfl⟩⟩)
      | leave =>
          rw [at_] at ran
          cases ran
          exact sound.ends at_
      | ended =>
          rw [at_] at ran
          cases ran
          exact sound.taskEnds at_
      | insert pthread =>
          rw [at_] at ran
          cases ran
          exact sound.inserted at_
      | notifyStart xHandle =>
          rw [at_] at ran
          cases ran
          exact sound.started at_
      | joinWait pthread =>
          rw [at_] at ran
          obtain ⟨notified, rfl⟩ := notifyWait_eq_some ran
          exact sound.moves (.joinDelete pthread) false (.inr ⟨notified, .inr ⟨pthread, at_, rfl⟩⟩)
      | joinDelete pthread =>
          rw [at_] at ran
          cases ran
          exact sound.joinDeletes at_

theorem Sound.releasedOnce {r : ThreadRun n} (sound : Sound r.s r.own r.lives) : r.ReleasedOnce where
  noFault := sound.noFault
  notEarly := sound.freed
  released := by
    rintro d ended (joined | ⟨detached, noJoiner⟩)
    · exact (sound.joined d joined).2
    · rintro (⟨p, listed, rfl⟩ | ⟨c, inserts⟩)
      · have gone := sound.gone p listed ended
        cases joins : p.join_task with
        | none =>
            have := sound.marked p listed
            grind
        | some j => exact noJoiner j ((gone.2.2 j joins).imp And.left id)
      · obtain ⟨p, making, rfl⟩ := inserting?_eq_some.mp inserts
        rw [(sound.inserting c p making).2.2] at ended
        cases ended
  kept := fun i => sound.kept
  found := by
    intro i still started
    obtain ⟨p, found, -, -, mine, -⟩ := sound.finds still started
    rw [found]
    exact congrArg some mine
  joinsAfterReturn := fun d joined => (sound.joined d joined).1
  joinerNotified := by
    intro i d waits ended
    obtain ⟨p, listed, rfl, joins⟩ := sound.joiners i d (.inl waits)
    have := (sound.gone p listed ended).2.2 i joins
    grind

def Steady (r : ThreadRun n) : Prop := Sound r.s r.own r.lives

/-- Threads are joined and released once in every run whose steps are orderly. -/
theorem threads_released_once (tasks : Fin n → Bool) (own : Fin n → Nat) (events : List (ThreadEvent n))
    (r : ThreadRun n)
    (orderly : EachStep ThreadRun.step (fun r e => e.Orderly r.s) events (ThreadRun.start tasks own))
    (run : runThreads events (ThreadRun.start tasks own) = some r) : r.ReleasedOnce := by
  have sound : Steady r := runSteps_keeps (fun _ _ _ sound orderly made => Sound.step sound orderly made)
    (Sound.start tasks own) orderly run
  exact Sound.releasedOnce sound

/-- A thread that is joined, and another one in its place that is detached. -/
theorem threads_released_once_joined :
    let events : List (ThreadEvent 2) :=
      [.create 0 1 7, .step 0, .step 0, .step 1, .join 0 7, .funcReturns 1, .step 1, .step 0, .step 0, .step 1,
        .create 0 1 7, .step 0, .step 0, .detach 0 7, .step 1, .funcReturns 1, .step 1]
    (runThreads events (ThreadRun.start (· = 0) fun _ => 0)).isSome = true ∧
      ∀ r, runThreads events (ThreadRun.start (· = 0) fun _ => 0) = some r → r.ReleasedOnce :=
  ⟨by decide, fun r => threads_released_once _ _ _ r (by decide)⟩

/-- A thread that is detached after it has ended is not released. -/
theorem ended_then_detached :
    ∃ r, runThreads [.create 0 1 7, .step 0, .step 0, .step 1, .funcReturns 1, .step 1, .detach 0 7]
      (ThreadRun.start (n := 2) (· = 0) fun _ => 0) = some r ∧ ¬ r.ReleasedOnce := by
  refine ⟨_, rfl, fun released => ?_⟩
  exact released.released 7 rfl (.inr ⟨rfl, by decide⟩) (by decide)

end EspFirmware.Pthread
