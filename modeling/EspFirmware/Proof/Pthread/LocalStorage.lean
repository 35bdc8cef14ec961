import Mathlib.Algebra.GroupWithZero.Nat
import EspFirmware.Spec.Pthread

namespace EspFirmware.Pthread
open Lib Spec

section
variable {key value : BitVec 32} {l : List ValueEntry}

theorem findValue_eq (there : ∀ e ∈ l, e.freed = false) : findValue key l = some (l.find? fun e => e.key = key) := by
  induction l with
  | nil => rfl
  | cons e rest ih =>
      have first := there e List.mem_cons_self
      have others := ih fun e listed => there e (List.mem_cons_of_mem _ listed)
      rw [findValue, first, List.find?_cons]
      by_cases here : e.key = key <;> simp [here, others]

variable (key value l) in
theorem setEntry_keys : (setEntry key value l).map ValueEntry.key = l.map ValueEntry.key := by
  induction l with
  | nil => rfl
  | cons e rest ih =>
      rw [setEntry]
      split
      · rfl
      · rw [List.map_cons, ih, List.map_cons]

theorem mem_setEntry (distinct : (l.map ValueEntry.key).Nodup) {e : ValueEntry} (listed : e ∈ setEntry key value l) :
    e.key ≠ key ∧ e ∈ l ∨ e.key = key ∧ e.value = value ∧ ∃ e' ∈ l, e'.key = key ∧ e.freed = e'.freed := by
  induction l with
  | nil => cases listed
  | cons first rest ih =>
      rw [List.map_cons, List.nodup_cons] at distinct
      rw [setEntry] at listed
      by_cases here : first.key = key
      · rw [if_pos here] at listed
        rcases List.mem_cons.mp listed with rfl | listed
        · exact .inr ⟨here, rfl, first, List.mem_cons_self, here, rfl⟩
        · refine .inl ⟨fun same => distinct.1 (List.mem_map.mpr ⟨e, listed, same.trans here.symm⟩), ?_⟩
          exact List.mem_cons_of_mem _ listed
      · rw [if_neg here] at listed
        rcases List.mem_cons.mp listed with rfl | listed
        · exact .inl ⟨here, List.mem_cons_self⟩
        · rcases ih distinct.2 listed with ⟨other, there⟩ | ⟨same, set, e', there, same', freed⟩
          · exact .inl ⟨other, List.mem_cons_of_mem _ there⟩
          · exact .inr ⟨same, set, e', List.mem_cons_of_mem _ there, same', freed⟩

theorem mem_removeEntry (distinct : (l.map ValueEntry.key).Nodup) (e : ValueEntry) :
    e ∈ removeEntry key l ↔ e ∈ l ∧ e.key ≠ key := by
  induction l with
  | nil => simp [removeEntry]
  | cons first rest ih =>
      rw [List.map_cons, List.nodup_cons] at distinct
      unfold removeEntry at *
      by_cases here : first.key = key
      · rw [List.eraseP_cons_of_pos (by simpa using here)]
        grind
      · rw [List.eraseP_cons_of_neg (by simpa using here), List.mem_cons, ih distinct.2]
        grind

theorem keys_removeEntry (distinct : (l.map ValueEntry.key).Nodup) (key k : BitVec 32) :
    k ∈ (removeEntry key l).map ValueEntry.key ↔ k ∈ l.map ValueEntry.key ∧ k ≠ key := by
  simp only [List.mem_map]
  constructor
  · rintro ⟨e, there, rfl⟩
    exact ⟨⟨e, ((mem_removeEntry distinct e).mp there).1, rfl⟩, ((mem_removeEntry distinct e).mp there).2⟩
  · rintro ⟨⟨e, there, rfl⟩, other⟩
    exact ⟨e, (mem_removeEntry distinct e).mpr ⟨there, other⟩, rfl⟩

theorem removeEntry_cons_of_ne {e : ValueEntry} (other : e.key ≠ key) :
    removeEntry key (e :: l) = e :: removeEntry key l := List.eraseP_cons_of_neg (by simpa using other)

end

def pendingKeys : Cleanup → List ValueEntry → List (BitVec 32)
  | .running, rest | .visit, rest => rest.map ValueEntry.key
  | .destructor _, rest | .advance, rest => (rest.map ValueEntry.key).tail

/-- A thread's list is its map, less what the clean-up has passed already. -/
structure KeptList (keys : List KeyEntry) (c : Cleanup) (tls : ValuesList) (value : BitVec 32 → BitVec 32)
    (passed : BitVec 32 → Nat) : Prop where
  notLost : tls.lost = false
  front : ∀ e ∈ tls.front, e.freed = true
  running : c = .running → tls.front = [] ∧ ∀ k, passed k = 0
  rest : ∀ e ∈ tls.rest, e.freed = false ∧ e.value ≠ 0 ∧ value e.key = e.value
  distinct : (tls.rest.map ValueEntry.key).Nodup
  unset : tls.front = [] → ∀ k, k ∉ tls.rest.map ValueEntry.key → value k = 0
  inside : c ≠ .running → c ≠ .visit → tls.rest ≠ []
  unpassed : ∀ k ∈ pendingKeys c tls.rest, passed k = 0
  past : c ≠ .running → ∀ key ∈ keys, key.destructor ≠ none → value key.key ≠ 0 →
    passed key.key = 1 ∨ key.key ∈ pendingKeys c tls.rest

def Kept (keys : List KeyEntry) (c : Cleanup) (tls : Option ValuesList) (value : BitVec 32 → BitVec 32)
    (passed : BitVec 32 → Nat) : Prop :=
  match tls with
  | none => c = .running ∧ ∀ k, value k = 0 ∧ passed k = 0
  | some tls => KeptList keys c tls value passed

variable {keys : List KeyEntry} {c : Cleanup} {tls : ValuesList} {value : BitVec 32 → BitVec 32}
  {passed : BitVec 32 → Nat} {key : BitVec 32}

theorem pendingKeys_of_keys {rest rest' : List ValueEntry} (same : rest.map ValueEntry.key = rest'.map ValueEntry.key) :
    pendingKeys c rest = pendingKeys c rest' := by cases c <;> simp only [pendingKeys, same]

theorem mem_pendingKeys {rest : List ValueEntry} {k : BitVec 32} (there : k ∈ rest.map ValueEntry.key)
    (notHead : c = .running ∨ rest.head?.map ValueEntry.key ≠ some k) : k ∈ pendingKeys c rest := by
  cases rest with
  | nil => cases there
  | cons e rest =>
      rw [List.map_cons] at there
      rcases notHead with rfl | notHead
      · exact there
      · have later : k ∈ rest.map ValueEntry.key :=
          (List.mem_cons.mp there).resolve_left fun same => notHead (by simp [same])
        cases c <;> first | exact there | exact later

theorem notInFront (first : tls.front = []) : tls.inFront key = false := by
  rw [ValuesList.inFront, first]
  rfl

namespace KeptList
variable (kept : KeptList keys c tls value passed)
include kept

theorem find (first : tls.front = []) (key : BitVec 32) :
    tls.find_value key = some (tls.rest.find? fun e => e.key = key) := by
  rw [ValuesList.find_value, first, List.nil_append]
  exact findValue_eq fun e there => (kept.rest e there).1

theorem create (new : KeyEntry) (unheld : new.key ∉ tls.rest.map ValueEntry.key) :
    KeptList (new :: keys) c tls (fun k => if k = new.key then 0 else value k)
      (fun k => if k = new.key then 0 else passed k) where
  notLost := kept.notLost
  front := kept.front
  running := fun running => ⟨(kept.running running).1, fun k => by
    have := (kept.running running).2 k
    grind⟩
  rest := fun e there => by
    have := kept.rest e there
    have : e.key ≠ new.key := fun same => unheld (same ▸ List.mem_map_of_mem there)
    grind
  distinct := kept.distinct
  unset := fun first k none => by
    have := kept.unset first k none
    grind
  inside := kept.inside
  unpassed := fun k there => by
    have := kept.unpassed k there
    grind
  past := fun cleaning key listed destructor set => by
    have := kept.past cleaning key
    grind

theorem delete {keys' : List KeyEntry} (fewer : ∀ key ∈ keys', key ∈ keys) : KeptList keys' c tls value passed :=
  { kept with past := fun cleaning key listed => kept.past cleaning key (fewer key listed) }

section
variable (first : tls.front = [])
include first

theorem set {v : BitVec 32} (there : key ∈ tls.rest.map ValueEntry.key) (isSet : v ≠ 0)
    (notHead : c = .running ∨ tls.rest.head?.map ValueEntry.key ≠ some key) :
    KeptList keys c (tls.set key v) (fun k => if k = key then v else value k)
      (fun k => if k = key then 0 else passed k) := by
  have set : tls.set key v = { tls with rest := setEntry key v tls.rest } := by
    rw [ValuesList.set, notInFront first]
    rfl
  rw [set]
  have keysSame := setEntry_keys key v tls.rest
  refine ⟨kept.notLost, kept.front, fun running => ⟨first, fun k => ?_⟩, fun e listed => ?_, ?_, fun _ k none => ?_, ?_,
    fun k pending => ?_, fun cleaning entry listed destructor nonzero => ?_⟩
  · have := (kept.running running).2 k
    grind
  · rcases mem_setEntry kept.distinct listed with ⟨other, before⟩ | ⟨same, isV, e', before, -, freed⟩
    · have := kept.rest e before
      grind
    · have := kept.rest e' before
      grind
  · rw [keysSame]
    exact kept.distinct
  · rw [keysSame] at none
    have := kept.unset first k none
    grind
  · intro notRunning notVisit empty
    have := kept.inside notRunning notVisit
    have lengths := congrArg List.length keysSame
    rw [List.length_map, List.length_map, show setEntry key v tls.rest = [] from empty] at lengths
    exact this (List.length_eq_zero_iff.mp lengths.symm)
  · rw [pendingKeys_of_keys keysSame] at pending
    have := kept.unpassed k pending
    grind
  · rw [pendingKeys_of_keys keysSame]
    have := kept.past cleaning entry listed destructor
    have := mem_pendingKeys there notHead
    grind

theorem remove (notHead : c = .running ∨ tls.rest.head?.map ValueEntry.key ≠ some key) :
    KeptList keys c (tls.remove (c ≠ .running) key) (fun k => if k = key then 0 else value k)
      (fun k => if k = key then 0 else passed k) := by
  have removed : tls.remove (c ≠ .running) key = { tls with rest := removeEntry key tls.rest } := by
    rw [ValuesList.remove, notInFront first, if_neg (by simp), if_neg]
    rintro ⟨cleaning, -, head⟩
    exact notHead.elim (by simpa using cleaning) fun other => other head
  rw [removed]
  have keysLess := keys_removeEntry kept.distinct key
  have pendingLess : ∀ k, k ∈ pendingKeys c (removeEntry key tls.rest) ↔ k ∈ pendingKeys c tls.rest ∧ k ≠ key := by
    intro k
    cases rest : tls.rest with
    | nil => cases c <;> simp [removeEntry, pendingKeys]
    | cons head tail =>
        have distinct := kept.distinct
        rw [rest] at keysLess distinct notHead
        rcases notHead with rfl | other
        · exact keysLess k
        · rw [removeEntry_cons_of_ne (by simpa using other)]
          have less := keys_removeEntry (List.nodup_cons.mp distinct).2 key k
          have all := keysLess k
          rw [removeEntry_cons_of_ne (by simpa using other)] at all
          cases c <;> first | exact all | exact less
  refine ⟨kept.notLost, kept.front, fun running => ⟨first, fun k => ?_⟩, fun e listed => ?_, ?_, fun _ k none => ?_, ?_,
    fun k pending => ?_, fun cleaning entry listed destructor isSet => ?_⟩
  · have := (kept.running running).2 k
    grind
  · have before := (mem_removeEntry kept.distinct e).mp listed
    have := kept.rest e before.1
    grind
  · exact kept.distinct.sublist (List.eraseP_sublist.map _)
  · have := kept.unset first k
    have := keysLess k
    grind
  · intro notRunning notVisit
    have := kept.inside notRunning notVisit
    obtain ⟨head, tail, rest⟩ := List.exists_cons_of_ne_nil this
    have other := notHead.resolve_left notRunning
    rw [rest] at other ⊢
    rw [removeEntry_cons_of_ne (by simpa using other)]
    simp
  · have := kept.unpassed k
    have := pendingLess k
    grind
  · have := kept.past cleaning entry listed destructor
    have := pendingLess entry.key
    grind

theorem clear (absent : key ∉ tls.rest.map ValueEntry.key) :
    KeptList keys c tls (fun k => if k = key then 0 else value k) (fun k => if k = key then 0 else passed k) := by
  have unset := kept.unset first key absent
  have same : (fun k => if k = key then 0 else value k) = value := by
    funext k
    grind
  rw [same]
  refine ⟨kept.notLost, kept.front, fun running => ⟨first, fun k => ?_⟩, kept.rest, kept.distinct, kept.unset,
    kept.inside, fun k pending => ?_, fun cleaning entry listed destructor nonzero => ?_⟩
  · have := (kept.running running).2 k
    grind
  · have := kept.unpassed k pending
    grind
  · have := kept.past cleaning entry listed destructor nonzero
    grind

end

theorem insert {v : BitVec 32} (running : c = .running) (absent : key ∉ tls.rest.map ValueEntry.key) (isSet : v ≠ 0) :
    KeptList keys c (tls.insert (c ≠ .running) ⟨key, v, false⟩) (fun k => if k = key then v else value k)
      (fun k => if k = key then 0 else passed k) := by
  subst running
  obtain ⟨first, unpassed⟩ := kept.running rfl
  have inserted : tls.insert (Cleanup.running ≠ .running) ⟨key, v, false⟩ =
      { tls with rest := ⟨key, v, false⟩ :: tls.rest } := if_neg (by simp)
  rw [inserted]
  refine ⟨kept.notLost, kept.front, fun _ => ⟨first, fun k => ?_⟩, fun e listed => ?_, ?_, fun _ k none' => ?_, ?_,
    fun k pending => ?_, fun cleaning => absurd rfl cleaning⟩
  · have := unpassed k
    grind
  · rcases List.mem_cons.mp listed with rfl | listed
    · exact ⟨rfl, isSet, if_pos rfl⟩
    · have := kept.rest e listed
      have : e.key ≠ key := fun same => absent (same ▸ List.mem_map_of_mem listed)
      grind
  · rw [List.map_cons, List.nodup_cons]
    exact ⟨absent, kept.distinct⟩
  · rw [List.map_cons, List.mem_cons, not_or] at none'
    have := kept.unset first k none'.2
    grind
  · intro cleaning
    exact absurd rfl cleaning
  · have := unpassed k
    grind

end KeptList

theorem KeptList.empty (keys : List KeyEntry) (unset : ∀ k, value k = 0 ∧ passed k = 0) :
    KeptList keys .running ⟨[], [], false⟩ value passed where
  notLost := rfl
  front := fun _ there => by cases there
  running := fun _ => ⟨rfl, fun k => (unset k).2⟩
  rest := fun _ there => by cases there
  distinct := List.nodup_nil
  unset := fun _ k _ => (unset k).1
  inside := fun notRunning => absurd rfl notRunning
  unpassed := fun k _ => (unset k).2
  past := fun notRunning => absurd rfl notRunning

variable {n : Nat}

def Falling (keys : List KeyEntry) : Prop := keys.Pairwise fun a b => b.key < a.key

theorem Falling.new {s : LocalStorage n} (falling : Falling s.s_keys) (fits : s.newKey ≠ 0) :
    ∀ entry ∈ s.s_keys, entry.key < s.newKey := by
  unfold LocalStorage.newKey at fits ⊢
  cases keys : s.s_keys with
  | nil => exact fun _ listed => nomatch listed
  | cons head rest =>
      rw [keys] at falling fits
      have next : head.key < head.key + 1 := by
        simp only at fits
        bv_omega
      intro entry listed
      rcases List.mem_cons.mp listed with rfl | later
      · exact next
      · exact BitVec.lt_trans ((List.pairwise_cons.mp falling).1 entry later) next

structure StorageSound (r : StorageRun n) : Prop where
  noFault : r.s.fault = false
  falling : r.wrapped = false → Falling r.s.s_keys
  distinct : (r.s.s_keys.map KeyEntry.key).Nodup
  threads : ∀ t, Kept r.s.s_keys (r.s.cleanup t) (r.s.tls t) (r.value t) (r.passed t)

variable {r r' : StorageRun n}

theorem find?_isSome_iff {l : List ValueEntry} :
    (∃ e, l.find? (fun e => e.key = key) = some e) ↔ key ∈ l.map ValueEntry.key := by
  rw [List.mem_map]
  constructor
  · rintro ⟨e, found⟩
    exact ⟨e, List.mem_of_find?_eq_some found, by simpa using List.find?_some found⟩
  · rintro ⟨e, there, same⟩
    cases found : l.find? (fun e => e.key = key) with
    | none => exact absurd same (by simpa using List.find?_eq_none.mp found e there)
    | some e' => exact ⟨e', rfl⟩

theorem KeptList.setspecific (heap : Nat) (key v : BitVec 32) (kept : KeptList keys c tls value passed)
    (first : tls.front = [])
    (clean : c = .running ∨ tls.rest.head?.map ValueEntry.key ≠ some key ∧
      (v ≠ 0 → key ∈ tls.rest.map ValueEntry.key)) :
    ∃ ret tls', tls.setspecific (c ≠ .running) key v heap = some (ret, tls') ∧
      (ret = .ok ∧ KeptList keys c tls' (fun k => if k = key then v else value k)
          (fun k => if k = key then 0 else passed k) ∨
        ret ≠ .ok ∧ tls' = tls) := by
  have notHead := clean.imp id And.left
  rw [ValuesList.setspecific, kept.find first, Option.map_some]
  cases found : tls.rest.find? fun e => e.key = key with
  | some e =>
      have there := find?_isSome_iff.mp ⟨e, found⟩
      by_cases null : v = 0
      · subst null
        exact ⟨.ok, _, rfl, .inl ⟨rfl, kept.remove first notHead⟩⟩
      · refine ⟨.ok, tls.set key v, ?_, .inl ⟨rfl, kept.set first there null notHead⟩⟩
        simp only [if_pos (show v ≠ 0 from null)]
  | none =>
      have absent : key ∉ tls.rest.map ValueEntry.key := fun there => by
        obtain ⟨e, some⟩ := find?_isSome_iff.mpr there
        rw [found] at some
        cases some
      by_cases null : v = 0
      · subst null
        exact ⟨.ok, tls, rfl, .inl ⟨rfl, kept.clear first absent⟩⟩
      · have running := clean.resolve_right fun ⟨_, there⟩ => absent (there null)
        simp only [if_neg null]
        by_cases full : heap = 0
        · exact ⟨.ENOMEM, tls, by rw [if_pos full], .inr ⟨by simp, rfl⟩⟩
        · exact ⟨.ok, _, by rw [if_neg full], .inl ⟨rfl, kept.insert running absent null⟩⟩

theorem update_other {α : Type} {f : Fin n → BitVec 32 → α} {t u : Fin n} {a : α} (other : u ≠ t) :
    (fun k => if u = t ∧ k = key then a else f u k) = f u := by
  funext k
  simp [other]

theorem StorageSound.set {t : Fin n} {v : BitVec 32} {heap : Nat} (sound : StorageSound r)
    (clean : r.Clean (.set t key v heap)) :
    StorageSound ⟨(r.s.pthread_setspecific t key v heap).2, r.values (.set t key v heap),
      r.passes (.set t key v heap), r.wrapped⟩ := by
  obtain ⟨noFault, falling, distinct, threads⟩ := sound
  have mine := threads t
  simp only [StorageRun.values, StorageRun.passes]
  rw [LocalStorage.pthread_setspecific]
  cases live : r.s.find_key key with
  | none => exact ⟨noFault, falling, distinct, threads⟩
  | some _ =>
      have stored (tls tls' : ValuesList) (heap : Nat) (ret : StorageRet)
          (set : tls.setspecific (r.s.cleanup t ≠ .running) key v heap = some (ret, tls'))
          (kept : KeptList r.s.s_keys (r.s.cleanup t) tls (r.value t) (r.passed t))
          (result : ret = .ok ∧ KeptList r.s.s_keys (r.s.cleanup t) tls' (fun k => if k = key then v else r.value t k)
              (fun k => if k = key then 0 else r.passed t k) ∨ ret ≠ .ok ∧ tls' = tls) :
          StorageSound ⟨(r.s.store t (tls.setspecific (r.s.cleanup t ≠ .running) key v heap)).2,
            if (r.s.store t (tls.setspecific (r.s.cleanup t ≠ .running) key v heap)).1 = .ok then
              fun u k => if u = t ∧ k = key then v else r.value u k else r.value,
            if (r.s.store t (tls.setspecific (r.s.cleanup t ≠ .running) key v heap)).1 = .ok then
              fun u k => if u = t ∧ k = key then 0 else r.passed u k else r.passed, r.wrapped⟩ := by
        rw [set, LocalStorage.store]
        refine ⟨noFault, falling, distinct, fun u => ?_⟩
        by_cases here : u = t
        · subst here
          rcases result with ⟨rfl, kept'⟩ | ⟨notOk, rfl⟩
          · simp only [LocalStorage.setTls, if_pos, true_and]
            exact kept'
          · simp only [LocalStorage.setTls, if_pos, if_neg notOk]
            exact kept
        · by_cases ok : ret = .ok
          · simp only [LocalStorage.setTls, if_neg here, if_pos ok, update_other here]
            exact threads u
          · simp only [LocalStorage.setTls, if_neg here, if_neg ok]
            exact threads u
      cases list : r.s.tls t with
      | none =>
          rw [list] at mine
          obtain ⟨running, unset⟩ := mine
          by_cases full : heap = 0
          · simp only [if_pos full]
            exact ⟨noFault, falling, distinct, threads⟩
          · have empty := KeptList.empty r.s.s_keys unset
            rw [← running] at empty
            obtain ⟨ret, tls', set, result⟩ := KeptList.setspecific (heap - 1) key v empty rfl (.inl running)
            simp only [if_neg full]
            exact stored _ tls' (heap - 1) ret set empty result
      | some tls =>
          rw [list] at mine
          have readable : tls.front = [] ∧ (r.s.cleanup t = .running ∨ tls.rest.head?.map ValueEntry.key ≠ some key ∧
              (v ≠ 0 → key ∈ tls.rest.map ValueEntry.key)) := by
            rcases clean with running | dead | ⟨readable, later⟩
            · exact ⟨(mine.running running).1, .inl running⟩
            · rw [live] at dead
              cases dead
            · have allowed := later tls list
              have first := readable.elim (fun running => (mine.running running).1) fun front => front tls list
              refine ⟨first, .inr ⟨allowed.1, ?_⟩⟩
              intro nonzero
              obtain ⟨e, there, same⟩ := allowed.2 nonzero
              exact List.mem_map.mpr ⟨e, there, same⟩
          obtain ⟨ret, tls', set, result⟩ := KeptList.setspecific heap key v mine readable.1 readable.2
          exact stored tls tls' heap ret set mine result

theorem StorageSound.create {destructor : Option Nat} (sound : StorageSound r)
    (clean : r.Clean (.create destructor)) :
    StorageSound ⟨r.s.pthread_key_create destructor, r.values (.create destructor), r.passes (.create destructor),
      r.wraps (.create destructor)⟩ := by
  have below (fits : r.wraps (.create destructor) = false) : ∀ entry ∈ r.s.s_keys, entry.key < r.s.newKey := by
    obtain ⟨before, first⟩ := Bool.or_eq_false_iff.mp fits
    exact (sound.falling before).new (by simpa using first)
  have fresh : ∀ entry ∈ r.s.s_keys, entry.key ≠ r.s.newKey := by
    intro entry listed same
    cases come : r.wraps (.create destructor) with
    | false => exact BitVec.ne_of_lt (below come entry listed) same
    | true => exact List.find?_eq_none.mp (clean.1 come) entry listed (by simpa using same)
  refine ⟨sound.noFault, fun fits => ?_, ?_, fun t => ?_⟩
  · exact List.pairwise_cons.mpr ⟨below fits, sound.falling (Bool.or_eq_false_iff.mp fits).1⟩
  · rw [LocalStorage.pthread_key_create, List.map_cons, List.nodup_cons]
    refine ⟨fun there => ?_, sound.distinct⟩
    obtain ⟨entry, listed, same⟩ := List.mem_map.mp there
    exact fresh entry listed same
  · have mine := sound.threads t
    simp only [LocalStorage.pthread_key_create, StorageRun.values, StorageRun.passes]
    cases list : r.s.tls t with
    | none =>
        rw [list] at mine
        refine ⟨mine.1, fun k => ?_⟩
        have := mine.2 k
        grind
    | some tls =>
        rw [list] at mine
        refine KeptList.create mine ⟨r.s.newKey, destructor⟩ fun there => ?_
        obtain ⟨e, listed, same⟩ := List.mem_map.mp there
        exact clean.2 t ⟨tls, list, e, List.mem_append_right _ listed, (mine.rest e listed).1, same⟩

theorem StorageSound.delete {key : BitVec 32} (sound : StorageSound r) :
    StorageSound ⟨r.s.pthread_key_delete key, r.value, r.passed, r.wrapped⟩ := by
  refine ⟨sound.noFault, fun fits => (sound.falling fits).sublist List.eraseP_sublist,
    sound.distinct.sublist (List.eraseP_sublist.map _), fun t => ?_⟩
  have mine := sound.threads t
  simp only [LocalStorage.pthread_key_delete]
  cases list : r.s.tls t with
  | none =>
      rw [list] at mine
      exact mine
  | some tls =>
      rw [list] at mine
      exact KeptList.delete mine fun entry listed => List.mem_of_mem_eraseP listed

theorem StorageSound.gets {t : Fin n} (sound : StorageSound r) (readable : r.s.Readable t) (key : BitVec 32) :
    r.s.pthread_getspecific t key = some (r.value t key) := by
  have mine := sound.threads t
  rw [LocalStorage.pthread_getspecific]
  cases list : r.s.tls t with
  | none =>
      rw [list] at mine
      rw [(mine.2 key).1]
  | some tls =>
      rw [list] at mine
      have first : tls.front = [] := readable.elim (fun running => (mine.running running).1) fun front => front tls list
      simp only [KeptList.find mine first, Option.map_some]
      cases found : tls.rest.find? fun e => e.key = key with
      | some e =>
          have there := List.mem_of_find?_eq_some found
          have same : e.key = key := by simpa using List.find?_some found
          exact congrArg some ((mine.rest e there).2.2.symm.trans (congrArg _ same))
      | none =>
          have absent : key ∉ tls.rest.map ValueEntry.key := fun there => by
            obtain ⟨e, some⟩ := find?_isSome_iff.mpr there
            rw [found] at some
            cases some
          exact congrArg some (mine.unset first key absent).symm

theorem StorageSound.goesOn (sound : StorageSound r) (t : Fin n) (c : Cleanup) (tls : Option ValuesList)
    {values : Fin n → BitVec 32 → BitVec 32} {passes : Fin n → BitVec 32 → Nat}
    (kept : Kept r.s.s_keys c tls (values t) (passes t)) (valuesOthers : ∀ u, u ≠ t → values u = r.value u)
    (passesOthers : ∀ u, u ≠ t → passes u = r.passed u) :
    StorageSound ⟨(r.s.setTls t tls).goto t c, values, passes, r.wrapped⟩ := by
  refine ⟨sound.noFault, sound.falling, sound.distinct, fun u => ?_⟩
  by_cases here : u = t
  · subst here
    simp only [LocalStorage.goto, LocalStorage.setTls, if_pos]
    exact kept
  · simp only [LocalStorage.goto, LocalStorage.setTls, if_neg here, valuesOthers u here, passesOthers u here]
    exact sound.threads u

theorem setTls_same {s : LocalStorage n} {t : Fin n} {tls : Option ValuesList} (there : s.tls t = tls) :
    s.setTls t tls = s := by
  unfold LocalStorage.setTls
  congr 1
  funext u
  split
  next here => rw [here, there]
  next => rfl

section
variable {t : Fin n} {tls : ValuesList} (kept : KeptList keys c tls value passed)
include kept

theorem KeptList.exits (running : c = .running) : KeptList keys .visit tls value passed where
  notLost := kept.notLost
  front := kept.front
  running := fun visit => by cases visit
  rest := kept.rest
  distinct := kept.distinct
  unset := kept.unset
  inside := fun _ notVisit => absurd rfl notVisit
  unpassed := fun k _ => (kept.running running).2 k
  past := fun _ key _ _ set => by
    by_contra neither
    exact set (kept.unset (kept.running running).1 key.key fun there => neither (.inr there))

theorem KeptList.returns {f : Nat} (inside : c = .destructor f) : KeptList keys .advance tls value passed := by
  subst inside
  exact ⟨kept.notLost, kept.front, fun running => (by cases running), kept.rest, kept.distinct, kept.unset,
    fun _ _ => kept.inside (by simp) (by simp), kept.unpassed, fun _ => kept.past (by simp)⟩

theorem KeptList.advances {entry : ValueEntry} {next : List ValueEntry} (inside : c = .advance)
    (rest : tls.rest = entry :: next) :
    KeptList keys .visit { tls with front := tls.front ++ [{ entry with freed := true }], rest := next } value
      passed := by
  subst inside
  have distinct := kept.distinct
  have unpassed := kept.unpassed
  have past := kept.past
  rw [rest] at distinct unpassed past
  refine ⟨kept.notLost, fun e there => ?_, fun running => (by cases running), fun e there => kept.rest e ?_,
    (List.nodup_cons.mp distinct).2, fun empty => ?_, fun _ notVisit => absurd rfl notVisit, unpassed,
    fun _ => past (by simp)⟩
  · rcases List.mem_append.mp there with there | there
    · exact kept.front e there
    · rw [List.mem_singleton.mp there]
  · rw [rest]
    exact List.mem_cons_of_mem _ there
  · exact absurd empty (by simp)

theorem KeptList.passes {entry : ValueEntry} {next : List ValueEntry} {f : Nat} (visits : c = .visit)
    (rest : tls.rest = entry :: next) :
    KeptList keys (.destructor f) tls value (fun k => if k = entry.key then passed k + 1 else passed k) := by
  subst visits
  have distinct := kept.distinct
  have unpassed := kept.unpassed
  have past := kept.past
  rw [rest, List.map_cons] at distinct
  simp only [pendingKeys, rest, List.map_cons] at unpassed past
  refine ⟨kept.notLost, kept.front, fun running => (by cases running), kept.rest, kept.distinct, kept.unset,
    fun _ _ => by simp [rest], fun k pending => ?_, fun _ key listed destructor set => ?_⟩
  · simp only [pendingKeys, rest, List.map_cons, List.tail_cons] at pending
    have other : k ≠ entry.key := fun same => (List.nodup_cons.mp distinct).1 (same ▸ pending)
    rw [if_neg other]
    exact unpassed k (List.mem_cons_of_mem _ pending)
  · simp only [pendingKeys, rest, List.map_cons, List.tail_cons]
    by_cases here : key.key = entry.key
    · have := unpassed entry.key List.mem_cons_self
      exact .inl (by rw [if_pos here, here, this])
    · rw [if_neg here]
      exact (past (by simp) key listed destructor set).imp_right fun there => (List.mem_cons.mp there).resolve_left here

theorem KeptList.skips {entry : ValueEntry} {next : List ValueEntry} (visits : c = .visit)
    (rest : tls.rest = entry :: next) (noDestructor : ∀ key ∈ keys, key.key = entry.key → key.destructor = none) :
    KeptList keys .advance tls value passed := by
  subst visits
  have unpassed := kept.unpassed
  have past := kept.past
  simp only [pendingKeys, rest, List.map_cons] at unpassed past
  refine ⟨kept.notLost, kept.front, fun running => (by cases running), kept.rest, kept.distinct, kept.unset,
    fun _ _ => by simp [rest], fun k pending => ?_, fun _ key listed destructor set => ?_⟩
  · simp only [pendingKeys, rest, List.map_cons, List.tail_cons] at pending
    exact unpassed k (List.mem_cons_of_mem _ pending)
  · simp only [pendingKeys, rest, List.map_cons, List.tail_cons]
    have other : key.key ≠ entry.key := fun same => destructor (noDestructor key listed same)
    exact (past (by simp) key listed destructor set).imp_right fun there => (List.mem_cons.mp there).resolve_left other

end

theorem StorageSound.visit {t : Fin n} {tls : ValuesList} (sound : StorageSound r) (visits : r.s.cleanup t = .visit)
    (list : r.s.tls t = some tls) :
    StorageSound ⟨r.s.visit t tls, r.values (.visit t), r.passes (.visit t), r.wrapped⟩ := by
  have mine := sound.threads t
  rw [list] at mine
  simp only [LocalStorage.visit, StorageRun.values, StorageRun.passes, list, Option.bind_some]
  cases rest : tls.rest with
  | nil =>
      have atEnd : r.AtEnd t := ⟨visits, tls, list, rest⟩
      simp only [if_pos atEnd, List.head?_nil]
      refine sound.goesOn t .running none ⟨rfl, fun k => ⟨if_pos rfl, if_pos rfl⟩⟩ (fun u other => ?_) fun u other => ?_
      · exact funext fun k => if_neg other
      · exact funext fun k => if_neg other
  | cons entry next =>
      have notAtEnd : ¬ r.AtEnd t := by
        rintro ⟨-, tls', list', empty⟩
        rw [list] at list'
        cases list'
        rw [rest] at empty
        cases empty
      simp only [if_neg notAtEnd, List.head?_cons]
      cases destructor : (r.s.find_key entry.key).bind KeyEntry.destructor with
      | some f =>
          simp only [Option.isSome_some, if_true]
          rw [← setTls_same list]
          refine sound.goesOn t (.destructor f) (some tls) ?_ (fun _ _ => rfl) fun u other => ?_
          · simp only [true_and]
            exact KeptList.passes mine visits rest
          · exact funext fun k => by simp [other]
      | none =>
          simp only [Option.isSome_none, Bool.false_eq_true, if_false]
          have noDestructor : ∀ key ∈ r.s.s_keys, key.key = entry.key → key.destructor = none := by
            intro key listed same
            cases found : r.s.find_key entry.key with
            | none => exact absurd same (by simpa using List.find?_eq_none.mp found key listed)
            | some key' =>
                have same' : key'.key = entry.key := by simpa using List.find?_some found
                have listed' := List.mem_of_find?_eq_some found
                rw [List.inj_on_of_nodup_map sound.distinct listed listed' (same.trans same'.symm)]
                rwa [found] at destructor
          rw [← setTls_same list]
          exact sound.goesOn t .advance (some tls) (KeptList.skips mine visits rest noDestructor) (fun _ _ => rfl)
            fun _ _ => rfl

theorem StorageSound.step {e : StorageEvent n} (sound : StorageSound r) (clean : r.Clean e)
    (made : r.step e = some r') : StorageSound r' := by
  obtain ⟨s', ran, rfl⟩ := Option.map_eq_some_iff.mp made
  unfold StorageEvent.run at ran
  rw [if_neg (by simp [sound.noFault])] at ran
  cases e with
  | create destructor =>
      cases ran
      exact sound.create clean
  | delete key =>
      cases ran
      exact sound.delete
  | set t key value heap =>
      obtain ⟨-, ⟨⟩⟩ := Option.ite_none_right_eq_some.mp ran
      exact sound.set clean
  | get t key =>
      obtain ⟨-, ⟨⟩⟩ := Option.ite_none_right_eq_some.mp ran
      rw [if_neg (by rw [sound.gets clean]; simp)]
      exact sound
  | exit t =>
      obtain ⟨running, ⟨⟩⟩ := Option.ite_none_right_eq_some.mp ran
      have mine := sound.threads t
      rw [LocalStorage.exit]
      cases list : r.s.tls t with
      | none => exact sound
      | some tls =>
          rw [list] at mine
          have goesOn := sound.goesOn t .visit (some tls) (KeptList.exits mine running) (fun _ _ => rfl) fun _ _ => rfl
          rwa [setTls_same list] at goesOn
  | visit t =>
      obtain ⟨visits, ran⟩ := Option.ite_none_right_eq_some.mp ran
      obtain ⟨tls, list, rfl⟩ := Option.map_eq_some_iff.mp ran
      exact sound.visit visits list
  | destructorReturns t =>
      have mine := sound.threads t
      simp only at ran
      cases inside : r.s.cleanup t with
      | destructor f =>
          rw [inside] at ran
          cases ran
          cases list : r.s.tls t with
          | none =>
              rw [list] at mine
              exact absurd mine.1 (by simp [inside])
          | some tls =>
              rw [list] at mine
              have goesOn := sound.goesOn t .advance (some tls) (KeptList.returns mine inside) (fun _ _ => rfl)
                fun _ _ => rfl
              rwa [setTls_same list] at goesOn
      | _ =>
          rw [inside] at ran
          cases ran
  | advance t =>
      obtain ⟨inside, ran⟩ := Option.ite_none_right_eq_some.mp ran
      obtain ⟨tls, list, rfl⟩ := Option.map_eq_some_iff.mp ran
      have mine := sound.threads t
      rw [list] at mine
      rw [LocalStorage.advance, if_neg (by simp [KeptList.notLost mine])]
      cases rest : tls.rest with
      | nil => exact absurd rest (KeptList.inside mine (by simp [inside]) (by simp [inside]))
      | cons entry next =>
          exact sound.goesOn t .visit _ (KeptList.advances mine inside rest) (fun _ _ => rfl) fun _ _ => rfl

theorem StorageSound.start : StorageSound (StorageRun.start n) where
  noFault := rfl
  falling := fun _ => List.Pairwise.nil
  distinct := List.nodup_nil
  threads := fun _ => ⟨rfl, fun _ => ⟨rfl, rfl⟩⟩

theorem StorageSound.mapPerThread (sound : StorageSound r) : r.MapPerThread where
  noFault := sound.noFault
  distinct := sound.distinct
  gets := fun _ _ readable key => sound.gets readable key
  passes := by
    rintro t entry ⟨visits, ⟨tls, list, head⟩, -⟩
    have mine := sound.threads t
    rw [list] at mine
    have there : entry ∈ tls.rest := List.mem_of_mem_head? head
    have kept := KeptList.rest mine entry there
    refine ⟨kept.2.2.symm, kept.2.1, KeptList.unpassed mine entry.key ?_⟩
    rw [visits]
    exact List.mem_map_of_mem there
  allPassed := by
    rintro t ⟨visits, tls, list, empty⟩ key listed destructor set
    have mine := sound.threads t
    rw [list] at mine
    refine (KeptList.past mine (by simp [visits]) key listed destructor set).resolve_right fun there => ?_
    rw [visits, empty] at there
    cases there

/-- In a run whose calls are clean, thread-specific data is a map per thread and key. -/
theorem storage_is_map (events : List (StorageEvent n)) (r : StorageRun n)
    (clean : EachStep StorageRun.step StorageRun.Clean events (StorageRun.start n))
    (run : runStorage events (StorageRun.start n) = some r) : r.MapPerThread := by
  have sound : StorageSound r :=
    runSteps_keeps (fun _ _ _ sound clean made => sound.step clean made) .start clean run
  exact sound.mapPerThread

def destructorSets (first second : Fin n) : List (StorageEvent n) :=
  [.create (some 1), .create (some 2), .set first 1 5 2, .set first 2 6 1, .set second 1 7 2, .exit first,
    .visit first, .get first 1, .set first 1 8 0, .destructorReturns first, .advance first, .visit first]

theorem storage_is_map_destructor :
    ∃ r, runStorage (destructorSets 0 1) (StorageRun.start 2) = some r ∧ r.MapPerThread :=
  ⟨_, rfl, storage_is_map (destructorSets 0 1) _ (by decide) rfl⟩

/-- A new key has the number of one that was deleted, and the value that was set for that one. -/
theorem deleted_key_comes_back :
    ∃ r, runStorage [.create none, .set 0 1 5 2, .delete 1, .create none] (StorageRun.start 2) = some r ∧
      ¬ r.MapPerThread := by
  refine ⟨_, rfl, fun map => ?_⟩
  exact absurd (map.gets 0 rfl (.inl rfl) 1) (by decide)

end EspFirmware.Pthread
