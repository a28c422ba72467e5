import HostNotify.Psmouse.Callbacks
import HostNotify.Psmouse.Upkeep

/-!
# Whole runs

Every call keeps to the rules of the accounts, so the invariant holds in every state the driver reaches,
as long as nothing has happened that it does not provide for: that the input device of a mouse cannot be
registered in the course of a change of protocol, that a new client comes to lie where a record on the list
still has the one before, or that a client is unregistered from outside while it is being set up, while its
removal is pending, or while its mouse is being disconnected.
-/

namespace HostNotify.Psmouse

open Interleaving

variable {s : Board} {p : Pool Board Op Op.Ans Call} {i : ℕ}

/-- Every call keeps to the rules. -/
theorem body_runs (call : Call) : Runs rules (.fresh call.role) call.body fun _ a' => a' = .fresh .idle := by
  cases call with
  | connect => exact psmouseConnect_runs
  | disconnect p => exact psmouseDisconnect_runs
  | reconnect p => exact psmouseReconnect_runs
  | setProtocol p proto oldProto => exact psmouseAttrSetProtocol_runs
  | resync p => exact psmouseResync_runs
  | addAdapter hostNotify => exact i2cRegisterAdapter_runs
  | destroyClient c => exact deviceUnregister_runs
  | removeI2cDevice c => exact psmouseSmbusRemoveI2cDevice_runs

namespace Fresh

variable (h : Fresh s)
include h

/-- There are no records on the list. -/
theorem unlisted {d : Addr} {r : SmbusDev} : ¬ s.Listed d r := by
  intro hr
  rw [Board.Listed, h.list] at hr
  cases hr.1

/-- There are no records at all. -/
theorem no_dev {d : Addr} {r : SmbusDev} : s.smbdev d ≠ some r := by
  rw [h.smbdev]
  exact fun hr => by cases hr

/-- There are no clients. -/
theorem no_client {c : Addr} {x : Client} : s.client c ≠ some x := by
  rw [h.client]
  exact fun hx => by cases hx

/-- The invariant holds at the beginning. -/
theorem sound : s.Sound where
  nodup := by rw [h.list]; exact List.nodup_nil
  listed d hd := by rw [h.list] at hd; cases hd
  unowned _ _ hr := absurd hr h.no_dev
  alive _ _ hr := absurd hr h.unlisted
  attached _ _ hr := absurd hr h.unlisted
  named _ _ _ _ _ hr := absurd hr h.unlisted
  neat _ _ _ _ hr := absurd hr h.unlisted
  settled _ q m hm := by rw [h.mouse] at hm; cases hm
  data _ _ _ hx := absurd hx h.no_client
  quiet _ _ hx := absurd hx h.no_client
  work c hc := by rw [h.work] at hc; cases hc
  workNodup := by rw [h.work]; exact List.nodup_nil
  fault := h.fault

/-- At the beginning nobody has anything. -/
theorem tie (t : ℕ) : Tie t (.fresh .idle) s where
  role := trivial
  resync q hq := by
    obtain ⟨⟨m, hm⟩, _⟩ := hq
    rw [h.mouse] at hm
    cases hm
  mutex := by rw [h.psmouseMutex]; simp [Account.fresh]
  benched hb := by cases hb
  bench _ hb := by cases hb
  rest hm := by cases hm
  smbus := by rw [h.smbusMutex]; simp [Account.fresh]
  visit _ hx := by cases hx
  loose d := by
    refine ⟨fun hd => (by cases hd), ?_⟩
    rintro ⟨r, hr, _⟩
    exact absurd hr h.no_dev

end Fresh

/-- Every thread of a reachable state has a true account, or the driver has been taken unawares. -/
theorem covers (h : p.Reachable machine Fresh) : custody.Covers p := by
  refine custody.covers_reachable (fun _ _ => trivial) (fun s hs => ⟨fun _ => hs.sound, fun t _ => hs.tie t⟩) ?_ h
  rintro call l rfl
  exact (body_runs call).mono fun _ _ ha => ha

/-- The invariant holds in every state of a run without lapses. -/
theorem sound_reachable (h : p.Reachable machine Fresh) (hlapse : p.shared.lapse = false) : p.shared.Sound :=
  (covers h).inv hlapse

/-- The account of a call that has not returned permits what comes next. -/
theorem next_account (h : p.Reachable machine Fresh) (hlapse : p.shared.lapse = false) {c : Call} {o : Op}
    (hnext : p.next i = some (c, o)) : ∃ a, Tie i a p.shared ∧ a.allows o := by
  obtain ⟨q, hi⟩ := Pool.next_some hnext
  obtain ⟨l, _, ht, hfollows⟩ := (covers h).thread i c _ hi
  cases l with
  | none => exact absurd ((show p.shared.lapse = true from ht).symm.trans hlapse) (by decide)
  | some a => exact ⟨a, ht hlapse, hfollows.1 a rfl⟩

/-- A thread that has something in hand has not returned; its account is true and permits what comes next. -/
theorem busy_next (h : p.Reachable machine Fresh) (hlapse : p.shared.lapse = false)
    (hbusy : ¬ Tie i (.fresh .idle) p.shared) :
    ∃ c o a, p.next i = some (c, o) ∧ Tie i a p.shared ∧ a.allows o := by
  have hcovers := covers h
  rcases lt_or_ge i p.threads.length with hlt | hge
  · obtain ⟨⟨c, q⟩, hi⟩ : ∃ x, p.threads[i]? = some x := ⟨_, List.getElem?_eq_getElem hlt⟩
    cases q with
    | ret u =>
      obtain ⟨l, _, ht, hrest⟩ := hcovers.thread i c _ hi
      cases l with
      | none => exact absurd ((show p.shared.lapse = true from ht).symm.trans hlapse) (by decide)
      | some a =>
        obtain rfl : a = .fresh .idle := hrest a rfl
        exact absurd (ht hlapse) hbusy
    | op o next =>
      have hnext : p.next i = some (c, o) := by rw [Pool.next, hi]
      obtain ⟨a, ha, hallow⟩ := next_account h hlapse hnext
      exact ⟨c, o, a, hnext, ha, hallow⟩
  · exact absurd (hcovers.absent i hge hlapse) hbusy

/-- The driver never uses memory that is not allocated, and loses none of its records: the list holds each
of its records once, and a record that is not on it is in the hands of a call that has not returned. -/
theorem records_accounted (h : p.Reachable machine Fresh) (hlapse : p.shared.lapse = false) :
    p.shared.fault = false ∧ p.shared.list.Nodup ∧ (∀ d ∈ p.shared.list, ∃ r, p.shared.smbdev d = some r) ∧
      ∀ d r, p.shared.smbdev d = some r → d ∈ p.shared.list ∨ ∃ i c o, r.owner = some i ∧ p.next i = some (c, o) := by
  have hs := sound_reachable h hlapse
  refine ⟨hs.fault, hs.nodup, fun d hd => ?_, fun d r hr => ?_⟩
  · obtain ⟨r, hr, _⟩ := hs.listed d hd
    exact ⟨r, hr⟩
  · cases ho : r.owner with
    | none => exact .inl (hs.unowned d r hr ho)
    | some i =>
      obtain ⟨c, o, _, hnext, _⟩ := busy_next h hlapse fun ht => by cases (ht.loose d).mpr ⟨r, hr, ho⟩
      exact .inr ⟨i, c, o, rfl, hnext⟩

/-- An empty machine. -/
def Board.loaded : Board where
  mouse _ := none
  usage _ := .bound [] none
  smbdev _ := none
  list := []
  client _ := none
  data _ := none
  work := []
  adapters := 0
  present _ := false
  hostNotify _ := false
  psmouseMutex := none
  smbusMutex := none
  world := { memory := true, address := 7, answer := true, rounds := 3 }
  fault := false
  lapse := false

/-- An empty machine is fresh. -/
theorem Board.loaded_fresh : Fresh Board.loaded := ⟨rfl, rfl, rfl, rfl, rfl, rfl, rfl, rfl, rfl, rfl, rfl⟩

def answering (address : Addr) (answer : Bool) : Action Call Event :=
  .event (.world { memory := true, address := address, answer := answer, rounds := 3 })

/-- The next `n` operations of thread `i`. -/
def advancing (i n : ℕ) : List (Action Call Event) := List.replicate n (.step i)

/-- Thread `i` finds a Synaptics touchpad, and makes a companion for it; what it allocates lies at address
`a`, but for the client at `c`. -/
def touchpadFound (i : ℕ) (a c : Addr) : List (Action Call Event) :=
  answering a true :: .call .connect :: advancing i 4 ++ answering a false :: advancing i 2 ++
    answering a true :: advancing i 11 ++ answering a false :: advancing i 1 ++ answering c true :: advancing i 10

/-- There is an adapter, and a touchpad gets a companion. -/
def companionMade : List (Action Call Event) :=
  .call (.addAdapter true) :: advancing 0 5 ++ touchpadFound 1 7 7

/-- The client goes, and the mouse after it. -/
def companionGone : List (Action Call Event) :=
  companionMade ++ .call (.destroyClient 7) :: advancing 2 10 ++ .call (.disconnect 7) :: advancing 3 10

/-- A schedule that runs through to a state yields that state as a reachable one. -/
theorem exists_pool (schedule : List (Action Call Event)) (φ : Pool Board Op Op.Ans Call → Bool)
    (h : (Pool.run machine schedule ⟨.loaded, []⟩).any φ = true) : ∃ p, p.Reachable machine Fresh ∧ φ p = true := by
  rw [Option.any_eq_true] at h
  obtain ⟨p, hp, hφ⟩ := h
  exact ⟨p, ⟨.loaded, schedule, Board.loaded_fresh, hp⟩, hφ⟩

/-- The record is in the hands of a thread. -/
def unfiled (p : Pool Board Op Op.Ans Call) : Bool :=
  !p.shared.lapse && (p.shared.smbdev 7).any fun r => r.owner = some 3

/-- The client has gone, and the disconnecting thread is about to free the record. -/
theorem records_accounted_gone : ∃ (p : Pool Board Op Op.Ans Call) (r : SmbusDev), p.shared.smbdev 7 = some r ∧
    r.owner = some 3 ∧ p.shared.fault = false ∧
    (7 ∈ p.shared.list ∨ ∃ i c o, r.owner = some i ∧ p.next i = some (c, o)) := by
  obtain ⟨p, hreach, hunfiled⟩ := exists_pool companionGone unfiled (by decide +kernel)
  obtain ⟨hlapse, hany⟩ := Bool.and_eq_true_iff.mp hunfiled
  obtain ⟨r, hr, ho⟩ := (Option.any_eq_true _ _).mp hany
  obtain ⟨hfault, _, _, hrecords⟩ := records_accounted hreach (by simpa using hlapse)
  exact ⟨p, r, hr, of_decide_eq_true ho, hfault, hrecords 7 r hr⟩

/-- The race that the comment at `psmouse_smbus_schedule_remove` speaks of: the removal of a companion is
pending while its client is unregistered from outside. -/
def removedTwice : List (Action Call Event) :=
  companionMade ++ .call (.disconnect 7) :: advancing 2 16 ++ .call (.destroyClient 7) :: advancing 3 9 ++
    [.call (.removeI2cDevice 7)]

/-- The run `removedTwice` ends in a use after free. -/
theorem fault_removedTwice : ∃ p : Pool Board Op Op.Ans Call, p.Reachable machine Fresh ∧ p.shared.fault = true :=
  exists_pool removedTwice (fun p => p.shared.fault) (by decide +kernel)

/-- A client has gone, and the record that has been marked for it still points to it when the client of
another touchpad comes to lie at the same address. When that one goes, the notifier takes the old record for
a record whose mouse has gone before, and frees it. -/
def readdressed : List (Action Call Event) :=
  companionMade ++ .call (.destroyClient 7) :: advancing 2 10 ++ touchpadFound 3 8 7 ++
    .call (.destroyClient 7) :: advancing 4 14 ++ .call (.disconnect 7) :: advancing 5 9

/-- The run `readdressed` leads to a fault. -/
theorem fault_readdressed : ∃ p : Pool Board Op Op.Ans Call, p.Reachable machine Fresh ∧ p.shared.fault = true :=
  exists_pool readdressed (fun p => p.shared.fault) (by decide +kernel)

/-- While nobody works on the mice, each is in one of three states: a plain one has no live record; one
in the PS/2 mode of its touchpad has breadcrumbs at most; and one driven by a companion has that
companion's record, which has a client, and no other live one. -/
theorem mice_settled (h : p.Reachable machine Fresh) (hlapse : p.shared.lapse = false)
    (hfree : p.shared.psmouseMutex = none) {q : Addr} {m : Mouse} (hm : p.shared.mouse q = some m) :
    (m.handlers = .plain → ∀ d r, p.shared.Listed d r → r.psmouse = q → r.dead = true) ∧
      (m.handlers = .vendor → ∀ d r, p.shared.Listed d r → r.psmouse = q → r.dead = true ∨ r.client = none) ∧
      (m.handlers = .smbus → ∃ d r, m.priv = .smbdev d ∧ p.shared.Listed d r ∧ r.psmouse = q ∧ r.client.isSome ∧
        ∀ d' r', p.shared.Listed d' r' → r'.psmouse = q → r'.dead = false → d' = d) := by
  obtain ⟨hplain, hvendor, hsmbus⟩ := (sound_reachable h hlapse).settled hfree q m hm
  refine ⟨hplain, hvendor, fun hh => ?_⟩
  obtain ⟨d, ⟨m', hm', _, hpriv⟩, honly, r, hr, hrq, hc⟩ := hsmbus hh
  obtain rfl := Option.some.inj (hm.symm.trans hm')
  refine ⟨d, r, hpriv, hr, hrq, hc, fun d' r' hr' hrq' hlive => ?_⟩
  exact (honly d' r' hr' hrq').resolve_left (by rw [hlive]; decide)

/-- A mouse is driven by a companion, and nobody works on it. -/
def settledCompanion (p : Pool Board Op Op.Ans Call) : Bool :=
  !p.shared.lapse && (p.shared.psmouseMutex.isNone && (p.shared.mouse 7).any fun m => m.handlers = .smbus)

/-- A mouse with a companion, and nobody at work. -/
theorem mice_settled_made : ∃ (p : Pool Board Op Op.Ans Call) (m : Mouse), p.shared.mouse 7 = some m ∧
    ∃ d r, m.priv = .smbdev d ∧ p.shared.Listed d r ∧ r.psmouse = 7 ∧ r.client.isSome ∧
      ∀ d' r', p.shared.Listed d' r' → r'.psmouse = 7 → r'.dead = false → d' = d := by
  obtain ⟨p, hreach, hsettled⟩ := exists_pool companionMade settledCompanion (by decide +kernel)
  obtain ⟨hlapse, hsettled⟩ := Bool.and_eq_true_iff.mp hsettled
  obtain ⟨hfree, hany⟩ := Bool.and_eq_true_iff.mp hsettled
  obtain ⟨m, hm, hh⟩ := (Option.any_eq_true _ _).mp hany
  have hcases := mice_settled hreach (by simpa using hlapse) (Option.isNone_iff_eq_none.mp hfree) hm
  exact ⟨p, m, hm, hcases.2.2 (of_decide_eq_true hh)⟩

/-- A live record with a client is the one through which its mouse is driven, no other record has that
client, and while nobody is at the list the client is there. -/
theorem companion_paired (h : p.Reachable machine Fresh) (hlapse : p.shared.lapse = false) {d c : Addr} {r : SmbusDev}
    (hr : p.shared.Listed d r) (hlive : r.dead = false) (hc : r.client = some c) :
    (∃ m, p.shared.mouse r.psmouse = some m ∧ m.handlers = .smbus ∧ m.priv = .smbdev d) ∧
      (∀ d' r', p.shared.Listed d' r' → r'.client = some c → d' = d) ∧
      (p.shared.smbusMutex = none → ∃ x, p.shared.client c = some x) := by
  have hs := sound_reachable h hlapse
  refine ⟨hs.attached d r hr hlive (by rw [hc]; rfl), fun d' r' hr' hc' => hs.named d r d' r' c hr hr' hlive hc hc',
    fun hfree => ?_⟩
  obtain ⟨x, hx, _⟩ := (hs.neat hfree d r c hr hc).1 hlive
  exact ⟨x, hx⟩

/-- The record is on the list, live and with a client. -/
def pairedRecord (p : Pool Board Op Op.Ans Call) : Bool :=
  !p.shared.lapse && (p.shared.smbusMutex.isNone && (decide (7 ∈ p.shared.list) &&
    (p.shared.smbdev 7).any fun r => !r.dead && r.client.isSome))

/-- In the run `companionMade` a mouse is driven through its record, and the record's client is there.
-/
theorem companion_paired_made : ∃ (p : Pool Board Op Op.Ans Call) (r : SmbusDev) (c : Addr), p.shared.Listed 7 r ∧
    r.dead = false ∧ r.client = some c ∧
    (∃ m, p.shared.mouse r.psmouse = some m ∧ m.handlers = .smbus ∧ m.priv = .smbdev 7) ∧
    ∃ x, p.shared.client c = some x := by
  obtain ⟨p, hreach, hpaired⟩ := exists_pool companionMade pairedRecord (by decide +kernel)
  obtain ⟨hlapse, hpaired⟩ := Bool.and_eq_true_iff.mp hpaired
  obtain ⟨hfree, hpaired⟩ := Bool.and_eq_true_iff.mp hpaired
  obtain ⟨hin, hany⟩ := Bool.and_eq_true_iff.mp hpaired
  obtain ⟨r, hr, hfacts⟩ := (Option.any_eq_true _ _).mp hany
  obtain ⟨hlive, hsome⟩ := Bool.and_eq_true_iff.mp hfacts
  obtain ⟨c, hc⟩ := Option.isSome_iff_exists.mp hsome
  have hlisted : p.shared.Listed 7 r := ⟨of_decide_eq_true hin, hr⟩
  have hdead : r.dead = false := by simpa using hlive
  obtain ⟨hattached, _, hthere⟩ := companion_paired hreach (by simpa using hlapse) hlisted hdead hc
  exact ⟨p, r, c, hlisted, hdead, hc, hattached, hthere (Option.isNone_iff_eq_none.mp hfree)⟩

/-! ## The two mutexes -/

/-- Whoever waits for others holds neither mutex. -/
theorem Account.allows.waits {a : Account} {o : Op} (h : a.allows o) (hwaits : o.Waits) :
    a.mutex = false ∧ a.visit = none ∧ ∀ q, a.role ≠ .resyncing q := by
  cases o with
  | disableWorkSync q =>
    obtain ⟨hrole, hmutex, hvisit⟩ := h
    exact ⟨hmutex, hvisit, fun q' hq => by cases hrole.symm.trans hq⟩
  | serioUnregisterChildPort q =>
    obtain ⟨hrole, hmutex, hvisit⟩ := h
    exact ⟨hmutex, hvisit, fun q' hq => by cases hrole.symm.trans hq⟩
  | releaseDriver c =>
    obtain ⟨hrole, hmutex, hvisit⟩ := h
    exact ⟨hmutex, hvisit, fun q' hq => by cases hrole.symm.trans hq⟩
  | _ => exact hwaits.elim

/-- The operation does not have to wait. -/
theorem exec_ready {t : ℕ} {o : Op} (hlock : ∀ k, o = .lock k → s.holder k = none) (hstuck : o ≠ .stuck)
    (hsync : ∀ q, o = .disableWorkSync q → ∀ u v, s.usage q ≠ .watched u (some v)) :
    ∃ r s', exec t o s = some (r, s') := by
  cases o with
  | lock k => exact ⟨_, _, if_pos (hlock k rfl)⟩
  | stuck => exact absurd rfl hstuck
  | disableWorkSync q =>
    simp only [exec]
    split
    · exact ⟨_, _, rfl⟩
    · next u v husage => exact absurd husage (hsync q rfl u v)
    · exact ⟨_, _, rfl⟩
  | _ =>
    simp only [exec]
    repeat' split
    all_goals exact ⟨_, _, rfl⟩

/-- A thread whose next operation has not to wait can go on. -/
theorem act_ready {c : Call} {o : Op} (hnext : p.next i = some (c, o))
    (hlock : ∀ k, o = .lock k → p.shared.holder k = none) (hstuck : o ≠ .stuck)
    (hsync : ∀ q, o = .disableWorkSync q → ∀ u v, p.shared.usage q ≠ .watched u (some v)) :
    ∃ p', p.act machine (.step i) = some p' := by
  obtain ⟨q, hq⟩ := Pool.next_some hnext
  obtain ⟨r, s', hexec⟩ := exec_ready (s := p.shared) (t := i) hlock hstuck hsync
  have hexec' : machine.exec i o p.shared = some (r, s') := hexec
  have hadmits : machine.admits c o p.shared = true := rfl
  simp only [Pool.act, hq, hadmits, if_true, hexec', Option.map_some]
  exact ⟨_, rfl⟩

/-- Some thread that does not wait for others can take its next step. -/
def Advances (p : Pool Board Op Op.Ans Call) : Prop :=
  ∃ j c o p', p.next j = some (c, o) ∧ ¬ o.Waits ∧ p.act machine (.step j) = some p'

section Progress

variable (h : p.Reachable machine Fresh) (hlapse : p.shared.lapse = false)
  (hstuck : ∀ j c, p.next j ≠ some (c, .stuck))
include hstuck

/-- A thread advances if no mutex keeps it back. -/
theorem advances_of_ready {c : Call} {o : Op} (hnext : p.next i = some (c, o)) (hwaits : ¬ o.Waits)
    (hlock : ∀ k, o = .lock k → p.shared.holder k = none) : Advances p := by
  obtain ⟨p', hp'⟩ := act_ready hnext hlock (fun he => hstuck i c (he ▸ hnext))
    fun q hq => absurd (show o.Waits from hq ▸ trivial) hwaits
  exact ⟨i, c, o, p', hnext, hwaits, hp'⟩

include h hlapse

/-- Whoever has the list waits for nobody. -/
theorem advances_of_smbus (hheld : p.shared.smbusMutex = some i) : Advances p := by
  have hbusy : ¬ Tie i (.fresh .idle) p.shared := fun ht => by cases ht.smbus.mpr hheld
  obtain ⟨c, o, a, hnext, ha, hallow⟩ := busy_next h hlapse hbusy
  have hvisit := ha.smbus.mpr hheld
  refine advances_of_ready hstuck hnext (fun hwaits => ?_) fun k hk => ?_
  · rw [(hallow.waits hwaits).2.1] at hvisit
    cases hvisit
  · subst hk
    cases k with
    | psmouse =>
      rw [hallow.2] at hvisit
      cases hvisit
    | smbus =>
      rw [show a.visit = none from hallow] at hvisit
      cases hvisit

/-- Whoever has the mice waits at most for the list. -/
theorem advances_of_psmouse (hheld : p.shared.psmouseMutex = some i) : Advances p := by
  have hbusy : ¬ Tie i (.fresh .idle) p.shared := fun ht => by cases ht.mutex.mpr hheld
  obtain ⟨c, o, a, hnext, ha, hallow⟩ := busy_next h hlapse hbusy
  have hmutex := ha.mutex.mpr hheld
  by_cases hlist : o = .lock .smbus ∧ p.shared.smbusMutex ≠ none
  · obtain ⟨j, hj⟩ := Option.ne_none_iff_exists'.mp hlist.2
    exact advances_of_smbus h hlapse hstuck hj
  · refine advances_of_ready hstuck hnext (fun hwaits => ?_) fun k hk => ?_
    · cases hmutex.symm.trans (hallow.waits hwaits).1
    · subst hk
      cases k with
      | psmouse => cases hmutex.symm.trans hallow.1
      | smbus => exact Classical.not_not.mp fun hne => hlist ⟨rfl, hne⟩

/-- Somebody advances as long as there is a thread that does not wait for others. -/
theorem advances_of_next {c : Call} {o : Op} (hnext : p.next i = some (c, o)) (hwaits : ¬ o.Waits) : Advances p := by
  by_cases hheld : ∃ k j, o = .lock k ∧ p.shared.holder k = some j
  · obtain ⟨k, j, _, hj⟩ := hheld
    cases k with
    | psmouse => exact advances_of_psmouse h hlapse hstuck hj
    | smbus => exact advances_of_smbus h hlapse hstuck hj
  · refine advances_of_ready hstuck hnext hwaits fun k hk => Option.eq_none_iff_forall_ne_some.mpr fun j hj => ?_
    exact hheld ⟨k, j, hk, hj⟩

end Progress

/-- Neither mutex is held where a thread waits for others: for `psmouse_resync`, for the mice of its
children, or for the companion's driver, which may have a trackstick. `psmouse_mutex` is taken before
`psmouse_smbus_mutex`, and neither is ever forgotten; so whoever cannot go on is kept waiting by threads
of which one can, and that one is in none of these waits. -/
theorem companions_progress (h : p.Reachable machine Fresh) (hlapse : p.shared.lapse = false)
    (hstuck : ∀ j c, p.next j ≠ some (c, .stuck)) {c : Call} {o : Op} (hnext : p.next i = some (c, o)) :
    (o.Waits → p.shared.psmouseMutex ≠ some i ∧ p.shared.smbusMutex ≠ some i) ∧
      (p.act machine (.step i) = none → Advances p) := by
  obtain ⟨a, ha, hallow⟩ := next_account h hlapse hnext
  refine ⟨fun hwaits => ?_, fun hblocked => ?_⟩
  · obtain ⟨hmutex, hvisit, _⟩ := hallow.waits hwaits
    refine ⟨fun hheld => ?_, fun hheld => ?_⟩
    · cases hmutex.symm.trans (ha.mutex.mpr hheld)
    · have hsome := ha.smbus.mpr hheld
      rw [hvisit] at hsome
      cases hsome
  · by_cases hwaits : o.Waits
    · have hsync : ∃ q u j, o = .disableWorkSync q ∧ p.shared.usage q = .watched u (some j) := by
        by_contra hno
        obtain ⟨p', hp'⟩ := act_ready hnext (fun k hk => absurd hwaits (hk ▸ id)) (fun he => hstuck i c (he ▸ hnext))
          fun q hq u j husage => hno ⟨q, u, j, hq, husage⟩
        cases hblocked.symm.trans hp'
      obtain ⟨q, u, j, rfl, husage⟩ := hsync
      -- the thread that resynchronises the mouse is at work, and waits for the mutexes at most
      obtain ⟨hthere, _⟩ : Role.Holds i p.shared (.watching q) := hallow.1 ▸ ha.role
      have hdeals : p.shared.Deals j .resync q := ⟨hthere, by rw [husage]; rfl⟩
      obtain ⟨c', o', b, hnext', hb, hallow'⟩ := busy_next h hlapse fun ht => by cases ht.resync q hdeals
      exact advances_of_next h hlapse hstuck hnext' fun hw => (hallow'.waits hw).2.2 q (hb.resync q hdeals)
    · exact advances_of_next h hlapse hstuck hnext hwaits

/-- Whether the operation is `stuck`. -/
def Op.isStuck : Op → Bool
  | .stuck => true
  | _ => false

/-- Whether thread `i` is at `disable_work_sync`. -/
def syncsNext (p : Pool Board Op Op.Ans Call) (i : ℕ) : Bool :=
  match p.next i with
  | some (_, .disableWorkSync _) => true
  | _ => false

/-- The thread is at `disable_work_sync`. -/
theorem syncsNext_some (h : syncsNext p i = true) : ∃ c q, p.next i = some (c, .disableWorkSync q) := by
  unfold syncsNext at h
  split at h
  · next c q hnext => exact ⟨c, q, hnext⟩
  · cases h

/-- A mouse is found; while `psmouse_resync` has been started for it, it is disconnected. -/
def resyncPending : List (Action Call Event) :=
  .call .connect :: advancing 0 9 ++ .call (.resync 7) :: .call (.disconnect 7) :: advancing 2 3

/-- Thread 2 waits for `psmouse_resync`, and nobody's search has run out of bounds. -/
def waiting (p : Pool Board Op Op.Ans Call) : Bool :=
  !p.shared.lapse && (syncsNext p 2 && ((p.act machine (.step 2)).isNone && (decide (p.threads.length = 3) &&
    (List.range 3).all fun j => (p.next j).all fun x => !x.2.isStuck)))

/-- The disconnecting thread holds neither mutex, and `psmouse_resync` can go on. -/
theorem companions_progress_resync : ∃ p : Pool Board Op Op.Ans Call, syncsNext p 2 = true ∧
    p.act machine (.step 2) = none ∧ p.shared.psmouseMutex ≠ some 2 ∧ p.shared.smbusMutex ≠ some 2 ∧ Advances p := by
  obtain ⟨p, hreach, hwaiting⟩ := exists_pool resyncPending waiting (by decide +kernel)
  obtain ⟨hlapse, hwaiting⟩ := Bool.and_eq_true_iff.mp hwaiting
  obtain ⟨hsync, hwaiting⟩ := Bool.and_eq_true_iff.mp hwaiting
  obtain ⟨hblocked, hwaiting⟩ := Bool.and_eq_true_iff.mp hwaiting
  obtain ⟨hlength, hall⟩ := Bool.and_eq_true_iff.mp hwaiting
  obtain ⟨c, q, hnext⟩ := syncsNext_some hsync
  have hstuck : ∀ j c, p.next j ≠ some (c, .stuck) := by
    intro j c hj
    obtain ⟨q, hq⟩ := Pool.next_some hj
    have hlt : j < 3 := of_decide_eq_true hlength ▸ (List.getElem?_eq_some_iff.mp hq).1
    have hno := List.all_eq_true.mp hall j (List.mem_range.mpr hlt)
    rw [hj] at hno
    cases hno
  have hnone := Option.isNone_iff_eq_none.mp hblocked
  obtain ⟨hfree, hadvances⟩ := companions_progress hreach (by simpa using hlapse) hstuck hnext
  exact ⟨p, hsync, hnone, (hfree trivial).1, (hfree trivial).2, hadvances hnone⟩

end HostNotify.Psmouse
