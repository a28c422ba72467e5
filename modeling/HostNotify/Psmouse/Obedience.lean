import HostNotify.Psmouse.Records

/-!
# The code keeps to the rules

What the functions of the driver make of the account they are called with. An account that is lost in
between permits everything.
-/

namespace HostNotify.Psmouse

open Interleaving

variable {A B : Type} {a : Account} {role : Role} {b : Bench} {p d c : Addr}

/-! ## Walks -/

/-- A visit that is not changed. -/
theorem Account.turn_self {x : Visit} (h : a.visit = some x) : a.turn x = a := by
  cases a
  simp only [Account.turn] at h ⊢
  rw [h]

/-- The walk for a new adapter reads every record. -/
theorem checkEntries_runs {todo : List Addr} {seen : List (Addr × SmbusDev)} {look : Look}
    (h : a.visit = some (.walking none todo seen look)) :
    Runs rules a (checkEntries todo) fun _ a' => ∃ seen' look', a' = a.turn (.walking none [] seen' look') := by
  induction todo generalizing a seen look with
  | nil => exact .ret ⟨seen, look, (Account.turn_self h).symm⟩
  | cons d rest ih =>
    refine Runs.op (o := Op.readDev d) ?_ fun r a' hm => ?_
    · simp only [rules, Account.allows, h]
      exact ⟨fun _ _ _ hc => (by cases hc), rest, rfl⟩
    · simp only [rules, Account.moves, h, List.tail_cons] at hm
      subst hm
      split
      · exact ih rfl
      · next hdead =>
        split
        · exact ih rfl
        · refine Runs.op (o := Op.rescan d) ?_ fun _ a' hm => ?_
          · exact ⟨none, rest, r, seen, .fresh, rfl, .inl ((Bool.not_eq_true _).mp hdead)⟩
          · subst hm
            exact ih rfl

/-- A new adapter is looked at. -/
theorem psmouseSmbusCheckAdapter_runs {adapter : ℕ} :
    Runs rules (.fresh .idle) (psmouseSmbusCheckAdapter adapter) fun _ a' => a' = .fresh .idle := by
  refine Runs.op (o := Op.hostNotify adapter) trivial fun r a' hm => ?_
  subst hm
  split
  · refine Runs.op (o := Op.lock .smbus) rfl fun _ a' hm => ?_
    subst hm
    refine Runs.op (o := Op.entries none) ⟨rfl, fun _ h => (by cases h)⟩ fun xs a' hm => ?_
    subst hm
    refine (checkEntries_runs rfl).bind fun _ a' hm => ?_
    obtain ⟨seen, look, rfl⟩ := hm
    refine Runs.perform (o := Op.unlock .smbus) ⟨_, rfl, rfl, fun _ _ _ h => (by cases h), fun _ h => (by cases h)⟩
      fun _ a' hm => ?_
    obtain ⟨x, hx, rfl⟩ := hm
    obtain rfl := Option.some.inj hx
    rfl
  · exact .ret rfl

/-- A thread in the notifier for client `c`. -/
def Account.leaving (c : Addr) (x : Visit) : Account :=
  { role := .notifying c, mutex := false, bench := none, visit := some x, loose := none }

/-- The walker is through with one record more. -/
theorem handled_cons {gone : Option Addr} {x : Addr × SmbusDev} {seen : List (Addr × SmbusDev)}
    (h : Visit.Handled gone seen) (hx : ∀ c, gone = some c → x.2.client = some c → x.2.dead = true) :
    Visit.Handled gone (x :: seen) := by
  intro y hy
  rcases List.mem_cons.mp hy with rfl | hy
  · exact hx
  · exact h y hy

/-- The walk for a client that has gone deals with every record that names it. -/
theorem detachEntries_runs {todo : List Addr} {seen : List (Addr × SmbusDev)} {look : Look}
    (hseen : Visit.Handled (some c) seen) :
    Runs rules (.leaving c (.walking (some c) todo seen look)) (detachEntries c todo) fun _ a' =>
      ∃ seen' look', Visit.Handled (some c) seen' ∧ a' = .leaving c (.walking (some c) [] seen' look') := by
  induction todo generalizing seen look with
  | nil => exact .ret ⟨seen, look, hseen, rfl⟩
  | cons d rest ih =>
    refine Runs.op (o := Op.readDev d) ⟨hseen, rest, rfl⟩ fun r a' hm => ?_
    obtain rfl : a' = .leaving c (.walking (some c) rest ((d, r) :: seen) .fresh) := hm
    split
    · next hne => exact ih (handled_cons hseen fun c' hc hcr => absurd (hcr.trans hc.symm) hne)
    · next hc =>
      have hc : r.client = some c := not_not.mp hc
      refine Runs.op (o := Op.freeClientData c) rfl fun _ a' hm => ?_
      obtain rfl := hm
      split
      · next hlive =>
        have hdead : r.dead = false := by simpa using hlive
        refine Runs.op (o := Op.setDead d) ⟨rfl, c, r, seen, rfl, rfl, hc, hdead⟩ fun _ a' hm => ?_
        obtain rfl : a' = .leaving c (.walking (some c) rest ((d, { r with dead := true }) :: seen) .marked) := hm
        refine Runs.op (o := Op.linkRemove (some c) r.psmouse) ⟨rfl, rfl, rfl, d, _, seen, rfl, rfl⟩ fun _ a' hm => ?_
        obtain rfl := hm
        refine Runs.op (o := Op.rescan d) ⟨some c, rest, _, seen, .marked, rfl, .inr rfl⟩ fun _ a' hm => ?_
        obtain rfl := hm
        exact ih (handled_cons hseen fun _ _ _ => rfl)
      · next hdead =>
        have hdead : r.dead = true := by simpa using hdead
        refine Runs.op (o := Op.listDel d) ⟨rfl, rfl, r, seen, rfl, hdead, hc⟩ fun _ a' hm => ?_
        obtain rfl : a' = { Account.leaving c (.walking (some c) rest seen .past) with loose := some d } := hm
        refine Runs.op (o := Op.freeDev d) rfl fun _ a' hm => ?_
        obtain rfl : a' = .leaving c (.walking (some c) rest seen .past) := hm
        exact ih hseen

/-- A client is unregistered. -/
theorem deviceUnregister_runs :
    Runs rules (.fresh (.destroying c)) (deviceUnregister c) fun _ a' => a' = .fresh .idle := by
  have hdetach : Runs rules (.fresh (.destroying c)) (psmouseSmbusDetachI2cClient c)
      fun _ a' => a' = .fresh (.notified c) := by
    refine Runs.op (o := Op.lock .smbus) rfl fun _ a' hm => ?_
    subst hm
    refine Runs.op (o := Op.entries (some c)) ⟨rfl, fun c' hc => (by obtain rfl := Option.some.inj hc; rfl)⟩
      fun xs a' hm => ?_
    obtain rfl : a' = .leaving c (.walking (some c) xs [] .past) := hm
    refine (detachEntries_runs fun x hx => (by cases hx)).bind fun _ a' hm => ?_
    obtain ⟨seen, look, hseen, rfl⟩ := hm
    refine Runs.perform (o := Op.unlock .smbus) ⟨_, rfl, rfl, hseen, fun c' hc => ?_⟩ fun _ a' hm => ?_
    · obtain rfl := Option.some.inj hc
      rfl
    · obtain ⟨x, hx, rfl⟩ := hm
      obtain rfl := Option.some.inj hx
      rfl
  refine Runs.op (o := Op.releaseDriver c) ⟨rfl, rfl, rfl⟩ fun _ a' hm => ?_
  subst hm
  refine hdetach.bind fun _ a' hm => ?_
  subst hm
  exact Runs.perform (o := Op.putDevice c) ⟨rfl, rfl⟩ fun _ _ hm => hm

/-- A client is removed by the work queue. -/
theorem psmouseSmbusRemoveI2cDevice_runs :
    Runs rules (.fresh (.removing c)) (psmouseSmbusRemoveI2cDevice c) fun _ a' => a' = .fresh .idle := by
  refine Runs.op (o := Op.deviceDel c) rfl fun _ a' hm => ?_
  obtain rfl : a' = .fresh (.destroying c) := hm
  exact deviceUnregister_runs

/-! ## Work on a mouse -/

/-- A thread at work on a mouse. -/
def Account.busy (role : Role) (b : Bench) : Account :=
  { role := role, mutex := true, bench := some b, visit := none, loose := none }

/-- It is through with the mouse: no live record is about it. -/
def Cleared (role : Role) (p : Addr) (a : Account) : Prop :=
  ∃ b : Bench, a = .busy role b ∧ b.mouse = p ∧ b.stage = .clear

/-- An idle mouse has breadcrumbs at most. -/
theorem Bench.idle_stage (h : b.idle = true) : b.stage = .clear ∨ b.stage = .crumbs :=
  ((Bool.or_eq_true _ _).mp (Bool.and_eq_true_iff.mp h).2).imp of_decide_eq_true of_decide_eq_true

/-- Freeing a record leaves an idle mouse idle. -/
theorem Bench.freed_idle (h : b.idle = true) : ({ b with stage := b.stage.freed d } : Bench) = b := by
  rcases b.idle_stage h with hk | hk <;> rw [hk] <;> cases b <;> simp_all [Stage.freed]

/-- The walk that takes the records about a mouse off the list. -/
theorem cleanupEntries_runs (hidle : b.idle = true) {todo : List Addr} {seen : List (Addr × SmbusDev)} {look : Look}
    (hseen : ∀ x ∈ seen, x.2.psmouse ≠ b.mouse) :
    Runs rules { Account.busy role b with visit := some (.walking none todo seen look) }
      (cleanupEntries b.mouse todo) fun _ a' =>
      ∃ seen' look', (∀ x ∈ seen', x.2.psmouse ≠ b.mouse) ∧
        a' = { Account.busy role b with visit := some (.walking none [] seen' look') } := by
  induction todo generalizing seen look with
  | nil => exact .ret ⟨seen, look, hseen, rfl⟩
  | cons d rest ih =>
    refine Runs.op (o := Op.readDev d) ⟨fun _ _ _ hc => (by cases hc), rest, rfl⟩ fun r a' hm => ?_
    obtain rfl : a' = { Account.busy role b with visit := some (.walking none rest ((d, r) :: seen) .fresh) } := hm
    split
    · next hp =>
      refine Runs.op (o := Op.listDel d) ⟨rfl, r, seen, rfl, b, rfl, hp, hidle⟩ fun _ a' hm => ?_
      obtain rfl : a' = { Account.busy role b with visit := some (.walking none rest seen .past), loose := some d } := hm
      refine Runs.op (o := Op.freeDev d) rfl fun _ a' hm => ?_
      obtain rfl : a' = { Account.busy role { b with stage := b.stage.freed d } with
        visit := some (.walking none rest seen .past) } := hm
      rw [Bench.freed_idle hidle]
      exact ih hseen
    · next hp =>
      refine ih fun x hx => ?_
      rcases List.mem_cons.mp hx with rfl | hx
      · exact fun h => hp h.symm
      · exact hseen x hx

/-- After the cleanup there are no breadcrumbs left. -/
theorem psmouseSmbusCleanup_runs (hidle : b.idle = true) :
    Runs rules (.busy role b) (psmouseSmbusCleanup b.mouse) fun _ a' => a' = .busy role { b with stage := .clear } := by
  refine Runs.op (o := Op.lock .smbus) rfl fun _ a' hm => ?_
  subst hm
  refine Runs.op (o := Op.entries none) ⟨rfl, fun _ h => (by cases h)⟩ fun xs a' hm => ?_
  obtain rfl : a' = { Account.busy role b with visit := some (.walking none xs [] .past) } := hm
  refine (cleanupEntries_runs hidle fun x hx => (by cases hx)).bind fun _ a' hm => ?_
  obtain ⟨seen, look, hseen, rfl⟩ := hm
  refine Runs.perform (o := Op.unlock .smbus) ⟨_, rfl, rfl, fun _ _ _ h => (by cases h), fun _ h => (by cases h)⟩
    fun _ a' hm => ?_
  obtain ⟨x, hx, rfl⟩ := hm
  obtain rfl := Option.some.inj hx
  have hsweep : Visit.sweeps b.mouse (.walking none [] seen look) = true := by
    simpa [Visit.sweeps] using fun x y hxy => hseen (x, y) hxy
  have hbench : Visit.bench (.walking none [] seen look) b = { b with stage := .clear } := by
    rw [Visit.bench, hsweep, hidle]
    rfl
  simp only [Account.onBench, Account.busy, Option.map_some, hbench, Visit.role]

/-! ## The companion goes -/

variable {h : Option Handlers} {v : Option Private} {k : Stage}

/-- A thread that has only entered may leave. -/
theorem unlockEntered_runs {o : Option Addr} : Runs rules { Account.busy role b with visit := some .entered, loose := o }
    (unlock .smbus) fun _ a' => a' = { Account.busy role b with loose := o } := by
  refine Runs.perform (o := Op.unlock .smbus) ⟨_, rfl, trivial⟩ fun _ a' hm => ?_
  obtain ⟨x, hx, rfl⟩ := hm
  obtain rfl := Option.some.inj hx
  rfl

/-- The end of `psmouse_smbus_disconnect`. -/
theorem parted_runs {x : Visit} (hk : k = .clear ∧ x = .entered ∨ k = .parting d ∧ x = .queued d) :
    Runs rules { Account.busy role ⟨p, h, v, k⟩ with visit := some x }
      (do perform (.setPrivate p .null); unlock .smbus) fun _ => Cleared role p := by
  refine Runs.op (o := Op.setPrivate p .null) ⟨_, rfl, rfl, ?_⟩ fun _ a' hm => ?_
  · rcases hk with ⟨rfl, _⟩ | ⟨rfl, rfl⟩
    · exact .inl ⟨.inl rfl, .inl rfl⟩
    · exact .inr (.inr ⟨d, rfl, rfl, rfl⟩)
  · obtain ⟨b, hb, rfl⟩ := hm
    obtain rfl := Option.some.inj hb
    have hcleared : Runs rules { Account.busy role ⟨p, h, some .null, .clear⟩ with visit := some .entered } (unlock .smbus)
        fun _ => Cleared role p := unlockEntered_runs.mono fun _ a' ha' => ⟨_, ha', rfl, rfl⟩
    rcases hk with ⟨rfl, rfl⟩ | ⟨rfl, rfl⟩
    · exact hcleared
    · exact hcleared

/-- The companion's mouse is disconnected. -/
theorem psmouseSmbusDisconnect_runs :
    Runs rules (.busy role ⟨p, some .smbus, v, .settled⟩) (psmouseSmbusDisconnect p) fun _ => Cleared role p := by
  refine Runs.op (o := Op.priv p) ⟨_, rfl, rfl⟩ fun w a' hm => ?_
  obtain ⟨b, hb, _, hsmbdev, rfl⟩ := hm
  obtain rfl := Option.some.inj hb
  obtain ⟨d, rfl⟩ := hsmbdev rfl rfl
  refine Runs.op (o := Op.lock .smbus) rfl fun _ a' hm => ?_
  subst hm
  refine Runs.op (o := Op.readDev d) ⟨_, rfl, rfl⟩ fun r a' hm => ?_
  obtain ⟨rfl, hclient⟩ := hm
  split
  · next hdead =>
    refine Runs.op (o := Op.listDel d) ⟨rfl, rfl, hdead, _, rfl, rfl⟩ fun _ a' hm => ?_
    obtain rfl : a' = { Account.busy role ⟨p, some .smbus, some (.smbdev d), .removed d⟩ with
      visit := some .entered, loose := some d } := hm
    refine Runs.op (o := Op.freeDev d) rfl fun _ a' hm => ?_
    have hfreed : Stage.freed d (.removed d) = .clear := if_pos rfl
    obtain rfl : a' = { Account.busy role ⟨p, some .smbus, some (.smbdev d), Stage.freed d (.removed d)⟩ with
      visit := some .entered } := hm
    rw [hfreed]
    exact parted_runs (d := d) (.inl ⟨rfl, rfl⟩)
  · next hdead =>
    refine Runs.op (o := Op.setDead d) ⟨rfl, (Bool.not_eq_true _).mp hdead, _, rfl, rfl⟩ fun _ a' hm => ?_
    obtain ⟨c, hc, rfl⟩ := hm
    refine Runs.op (o := Op.linkRemove r.client p) ⟨hc, _, rfl, rfl⟩ fun _ a' hm => ?_
    subst hm
    refine Runs.op (o := Op.queueWork r.client) ⟨d, c, rfl, hc, _, rfl, rfl⟩ fun _ a' hm => ?_
    obtain ⟨d', c', hx, rfl⟩ := hm
    obtain ⟨rfl, rfl⟩ := Visit.marked.inj (Option.some.inj hx)
    exact parted_runs (d := d) (.inr ⟨rfl, rfl⟩)

/-- Whichever `disconnect` the mouse has, no record about it is left. -/
theorem callDisconnect_runs (hallow : a.allows (.handlers p))
    (hmoves : ∀ h a', a.moves (.handlers p) h a' → ∃ v k, a' = .busy role ⟨p, some h, v, k⟩ ∧ (h = .plain → k = .clear) ∧
      (h = .smbus → k = .settled) ∧ (h = .vendor → k = .clear ∨ k = .crumbs)) :
    Runs rules a (callDisconnect p) fun _ => Cleared role p := by
  refine Runs.op (o := Op.handlers p) hallow fun h a' hm => ?_
  obtain ⟨v, k, rfl, hplain, hsmbus, hvendor⟩ := hmoves h a' hm
  cases h with
  | plain =>
    obtain rfl := hplain rfl
    exact .ret ⟨_, rfl, rfl, rfl⟩
  | smbus =>
    obtain rfl := hsmbus rfl
    exact psmouseSmbusDisconnect_runs
  | vendor =>
    have hidle : Bench.idle ⟨p, some .vendor, v, k⟩ = true := by
      rcases hvendor rfl with rfl | rfl <;> simp [Bench.idle, Bench.detached]
    refine (psmouseSmbusCleanup_runs hidle).bind fun _ a' hm => ?_
    subst hm
    refine Runs.perform (o := Op.setPrivate p .null) ⟨_, rfl, rfl, .inl ⟨.inl rfl, .inl rfl⟩⟩ fun _ a' hm => ?_
    obtain ⟨b, hb, rfl⟩ := hm
    obtain rfl := Option.some.inj hb
    exact ⟨_, rfl, rfl, rfl⟩

/-! ## A companion is made -/

/-- The platform data is copied for the new record. -/
theorem boardData_runs {w : Touchpad} (h : ∃ b, a.bench = some b ∧ b.stage = .made d) :
    Runs rules a (boardData w d) fun _ a' => a' = a := by
  unfold boardData
  split
  · exact Runs.perform (o := Op.kmemdup d) h fun _ _ hm => hm
  · exact .ret rfl

/-- The bench while a client is looked for. -/
def searching (p d : Addr) (k : Stage) : Bench := ⟨p, some .smbus, some (.smbdev d), k⟩

/-- One adapter is tried. -/
theorem psmouseSmbusCreateCompanion_runs {adapter : ℕ} :
    Runs rules (.busy role (searching p d (.listed d))) (psmouseSmbusCreateCompanion adapter d) fun made a' =>
      if made then ∃ c, a' = .busy role (searching p d (.noted d c)) else a' = .busy role (searching p d (.listed d)) := by
  refine Runs.op (o := Op.hostNotify adapter) trivial fun r a' hm => ?_
  subst hm
  split
  · exact .ret rfl
  · refine Runs.op (o := Op.newScannedDevice adapter d) ⟨rfl, _, rfl, rfl⟩ fun o a' hm => ?_
    cases o with
    | none =>
      obtain rfl := hm
      exact .ret rfl
    | some c =>
      obtain rfl : a' = .busy role (searching p d (.found d c)) := hm
      refine Runs.op (o := Op.setClient d c) ⟨rfl, _, rfl, rfl, rfl, rfl⟩ fun _ a' hm => ?_
      obtain rfl : a' = .busy role (searching p d (.noted d c)) := hm
      exact .ret ⟨c, rfl⟩

/-- The adapters are tried one after the other. -/
theorem i2cForEachDev_runs {left start : ℕ} :
    Runs rules (.busy role (searching p d (.listed d))) (i2cForEachDev d left start) fun _ a' =>
      ∃ k, a' = .busy role (searching p d k) ∧ (k = .listed d ∨ ∃ c, k = .noted d c) := by
  induction left generalizing start with
  | zero => exact Runs.perform (o := Op.stuck) trivial fun _ _ hm => ⟨_, hm, .inl rfl⟩
  | succ left ih =>
    refine Runs.op (o := Op.nextAdapter start) trivial fun o a' hm => ?_
    subst hm
    cases o with
    | none => exact .ret ⟨_, rfl, .inl rfl⟩
    | some n =>
      refine psmouseSmbusCreateCompanion_runs.bind fun made a' hm => ?_
      cases made with
      | true =>
        obtain ⟨c, rfl⟩ := hm
        exact .ret ⟨_, rfl, .inr ⟨c, rfl⟩⟩
      | false =>
        obtain rfl := hm
        exact ih

/-- What `psmouse_smbus_init` leaves behind. -/
def Companion (role : Role) (p : Addr) (leaveBreadcrumbs made : Bool) (a : Account) : Prop :=
  if made then ∃ d, a = .busy role (searching p d (.used d))
  else Cleared role p a ∨ leaveBreadcrumbs = true ∧ ∃ d, a = .busy role (searching p d (.listed d))

/-- With a client there is a companion; without, breadcrumbs or nothing. -/
theorem psmouseSmbusSettle_runs {leaveBreadcrumbs failed : Bool} (hk : k = .listed d ∨ ∃ c, k = .noted d c) :
    Runs rules (.busy role (searching p d k)) (psmouseSmbusSettle p d leaveBreadcrumbs failed)
      (Companion role p leaveBreadcrumbs) := by
  refine Runs.op (o := Op.readDev d) ⟨_, rfl, hk.imp_right .inl⟩ fun r a' hm => ?_
  obtain ⟨rfl, hfacts⟩ := hm
  obtain ⟨hlisted, hnoted⟩ := hfacts _ rfl
  split
  · next hsome =>
    rcases hk with rfl | ⟨c, rfl⟩
    · rw [hlisted rfl] at hsome
      cases hsome
    · refine Runs.op (o := Op.linkAdd r.client p) ⟨rfl, _, d, c, rfl, rfl, rfl, hnoted c rfl⟩ fun _ a' hm => ?_
      obtain ⟨b, d', c', hb, hk, rfl⟩ := hm
      obtain rfl := Option.some.inj hb
      obtain ⟨rfl, rfl⟩ := Stage.noted.inj hk
      exact .ret ⟨d, rfl⟩
  · next hnone =>
    rcases hk with rfl | ⟨c, rfl⟩
    · refine Runs.op (o := Op.freeBoardData d) ⟨rfl, _, rfl, rfl⟩ fun _ a' hm => ?_
      subst hm
      split
      · refine Runs.op (o := Op.lock .smbus) rfl fun _ a' hm => ?_
        subst hm
        refine Runs.op (o := Op.listDel d) ⟨rfl, _, rfl, rfl⟩ fun _ a' hm => ?_
        obtain rfl : a' = { Account.busy role (searching p d (.removed d))
            with visit := some .entered, loose := some d } := hm
        refine unlockEntered_runs.bind fun _ a' hm => ?_
        subst hm
        refine Runs.op (o := Op.freeDev d) rfl fun _ a' hm => ?_
        obtain rfl : a' = .busy role (searching p d (Stage.freed d (.removed d))) := hm
        exact .ret (.inl ⟨_, rfl, rfl, if_pos rfl⟩)
      · next hleave =>
        refine .ret (.inr ⟨?_, d, rfl⟩)
        simpa using (Bool.or_eq_false_iff.mp ((Bool.not_eq_true _).mp hleave)).2
    · rw [hnoted c rfl] at hnone
      exact absurd rfl hnone

/-- A companion is asked for. -/
theorem psmouseSmbusInit_runs {w : Touchpad} {leaveBreadcrumbs : Bool} (hrole : role.Handles p) :
    Runs rules (.busy role ⟨p, some .plain, v, .clear⟩) (psmouseSmbusInit p w leaveBreadcrumbs)
      (Companion role p leaveBreadcrumbs) := by
  refine Runs.op (o := Op.newDev p w.needDeactivate) ⟨rfl, _, rfl, rfl, rfl⟩ fun o a' hm => ?_
  cases o with
  | none =>
    obtain rfl := hm
    exact .ret (.inl ⟨_, rfl, rfl, rfl⟩)
  | some d =>
    obtain rfl : a' = { Account.busy role ⟨p, some .plain, v, .made d⟩ with loose := some d } := hm
    refine (boardData_runs ⟨_, rfl, rfl⟩).bind fun made a' hm => ?_
    subst hm
    split
    · refine Runs.op (o := Op.freeDev d) rfl fun _ a' hm => ?_
      obtain rfl : a' = .busy role ⟨p, some .plain, v, Stage.freed d (.made d)⟩ := hm
      exact .ret (.inl ⟨_, rfl, rfl, if_pos rfl⟩)
    · have hrest : Runs rules { Account.busy role ⟨p, some .plain, v, .made d⟩ with loose := some d } (do
          perform (.setPrivate p (.smbdev d))
          perform (.setHandlers p .smbus)
          lock .smbus
          perform (.listAdd d)
          unlock .smbus
          let failed ← outcome
          if !failed then i2cForEachDev d (← perform .rounds) 0
          psmouseSmbusSettle p d leaveBreadcrumbs failed) (Companion role p leaveBreadcrumbs) := by
        refine Runs.op (o := Op.setPrivate p (.smbdev d)) ⟨_, rfl, rfl, .inr (.inl ⟨d, rfl, rfl⟩)⟩ fun _ a' hm => ?_
        obtain ⟨b, hb, rfl⟩ := hm
        obtain rfl := Option.some.inj hb
        refine Runs.op (o := Op.setHandlers p .smbus) ⟨_, rfl, rfl, .inr (.inr ⟨d, rfl, rfl, rfl⟩)⟩ fun _ a' hm => ?_
        obtain ⟨b, hb, rfl⟩ := hm
        obtain rfl := Option.some.inj hb
        refine Runs.op (o := Op.lock .smbus) rfl fun _ a' hm => ?_
        subst hm
        refine Runs.op (o := Op.listAdd d) ⟨rfl, _, rfl, rfl⟩ fun _ a' hm => ?_
        obtain rfl : a' = { Account.busy role (searching p d (.listed d))
            with visit := some .entered, loose := none } := hm
        refine unlockEntered_runs.bind fun _ a' hm => ?_
        obtain rfl : a' = .busy role (searching p d (.listed d)) := hm
        refine Runs.op (o := Op.outcome) trivial fun failed a' hm => ?_
        subst hm
        split
        · refine Runs.op (o := Op.rounds) trivial fun left a' hm => ?_
          subst hm
          refine i2cForEachDev_runs.bind fun _ a' hm => ?_
          obtain ⟨k, rfl, hk⟩ := hm
          exact psmouseSmbusSettle_runs hk
        · exact psmouseSmbusSettle_runs (.inl rfl)
      split
      · exact Runs.op (o := Op.command p) hrole fun _ a' hm => hm ▸ hrest
      · exact hrest

end HostNotify.Psmouse
