import HostNotify.Psmouse.Obedience

/-!
# The callbacks

The functions that try protocols, and those the serio core and the attributes call: whatever comes of
an attempt, the mouse is left in order.
-/

namespace HostNotify.Psmouse

open Interleaving

variable {A B : Type} {a : Account} {role : Role} {b : Bench} {p d c : Addr} {h : Option Handlers} {v : Option Private}
  {k : Stage}

/-! ## Attempts -/

/-- What a thread leaves behind when an attempt at a protocol has come to an end. -/
def Tried (role : Role) (p : Addr) (type : Attempt) (a : Account) : Prop :=
  ∃ b : Bench, a = .busy role b ∧ b.mouse = p ∧
    match type with
    | .failed => b.stage = .clear
    | .ps2 => b.handlers = some .plain ∧ b.stage = .clear ∨
        b.handlers = some .vendor ∧ (b.stage = .clear ∨ b.stage = .crumbs)
    | .companion => ∃ d, b.stage = .used d ∧ b.Hooked d

/-- A mouse without records is what a failure leaves. -/
theorem Tried.of_cleared (ha : Cleared role p a) : Tried role p .failed a := ha

/-- `private` is assigned where no record is lost by it. -/
theorem setPrivate_runs {w : Private} (hw : w = .null ∨ w = .vendor)
    (hk : k = .clear ∨ k = .crumbs ∨ ∃ d, k = .listed d) :
    Runs rules (.busy role ⟨p, h, v, k⟩) (perform (.setPrivate p w))
      fun _ a' => a' = .busy role ⟨p, h, some w, k.reset⟩ := by
  refine Runs.perform (o := Op.setPrivate p w) ⟨_, rfl, rfl, .inl ⟨hw, hk⟩⟩ fun _ a' hm => ?_
  obtain ⟨b, hb, rfl⟩ := hm
  obtain rfl := Option.some.inj hb
  rcases hk with rfl | rfl | ⟨d, rfl⟩ <;> rfl

/-- After that there are breadcrumbs at most. -/
theorem Stage.reset_idle (hk : k = .clear ∨ k = .crumbs ∨ ∃ d, k = .listed d) : k.reset = .clear ∨ k.reset = .crumbs := by
  rcases hk with rfl | rfl | ⟨d, rfl⟩
  · exact .inl rfl
  · exact .inr rfl
  · exact .inr rfl

/-- The PS/2 modes of a touchpad. -/
theorem initPs2_runs (hk : k = .clear ∨ k = .crumbs ∨ ∃ d, k = .listed d) :
    Runs rules (.busy role ⟨p, h, v, k⟩) (initPs2 p) fun ok a' => ∃ h' w, a' = .busy role ⟨p, h', some w, k.reset⟩ ∧
      (w = .null ∨ w = .vendor) ∧ (ok = true → h' = some .vendor) := by
  refine Runs.op (o := Op.outcome) trivial fun r a' hm => ?_
  subst hm
  split
  · refine (setPrivate_runs (.inr rfl) hk).bind fun _ a' hm => ?_
    subst hm
    refine Runs.op (o := Op.outcome) trivial fun r a' hm => ?_
    subst hm
    split
    · refine Runs.op (o := Op.setHandlers p .vendor) ⟨_, rfl, rfl, ?_⟩ fun _ a' hm => ?_
      · rcases Stage.reset_idle hk with hr | hr
        · exact .inl ⟨hr, by decide⟩
        · exact .inr (.inl ⟨hr, rfl⟩)
      · obtain ⟨b, hb, rfl⟩ := hm
        obtain rfl := Option.some.inj hb
        exact Runs.perform (o := Op.outcome) trivial fun _ a' hm => ⟨_, _, hm, .inr rfl, fun _ => rfl⟩
    · exact .ret ⟨_, _, rfl, .inr rfl, fun h => (by cases h)⟩
  · refine (setPrivate_runs (.inl rfl) hk).bind fun _ a' hm => ?_
    subst hm
    exact .ret ⟨_, _, rfl, .inl rfl, fun h => (by cases h)⟩

/-- The PS/2 mode of a touchpad is tried, and its companions are cleaned up if that fails. -/
theorem vendor_runs (hk : k = .clear ∨ k = .crumbs ∨ ∃ d, k = .listed d) :
    Runs rules (.busy role ⟨p, h, v, k⟩) (do
      if ← initPs2 p then pure Attempt.ps2
      else
        psmouseSmbusCleanup p
        pure .failed) (Tried role p) := by
  refine (initPs2_runs hk).bind fun ok a' hm => ?_
  obtain ⟨h', w, rfl, hw, hok⟩ := hm
  have hreset := Stage.reset_idle hk
  split
  · next hyes => exact .ret ⟨_, rfl, rfl, .inr ⟨hok hyes, hreset⟩⟩
  · have hidle : Bench.idle ⟨p, h', some w, k.reset⟩ = true := by
      rcases hreset with hr | hr <;> rcases hw with rfl | rfl <;> simp [Bench.idle, Bench.detached, hr]
    refine (psmouseSmbusCleanup_runs hidle).bind fun _ a' hm => ?_
    subst hm
    exact .ret ⟨_, rfl, rfl, rfl⟩

/-- A touchpad is tried, with a companion and without. -/
theorem touchpadInit_runs {w : Touchpad} (hrole : role.Handles p) :
    Runs rules (.busy role ⟨p, some .plain, v, .clear⟩) (touchpadInit p w) (Tried role p) := by
  refine Runs.op (o := Op.outcome) trivial fun r a' hm => ?_
  subst hm
  split
  · refine Runs.op (o := Op.outcome) trivial fun r a' hm => ?_
    subst hm
    have hrest : ∀ (made : Bool) a', Companion role p true made a' → Runs rules a' (do
        if made then pure Attempt.companion
        else if ← initPs2 p then pure Attempt.ps2
        else
          psmouseSmbusCleanup p
          pure .failed) (Tried role p) := by
      intro made a' hm
      cases made with
      | true =>
        obtain ⟨d, rfl⟩ := hm
        exact .ret ⟨_, rfl, rfl, d, rfl, rfl, rfl⟩
      | false =>
        rcases hm with ⟨b, rfl, rfl, hb⟩ | ⟨_, d, rfl⟩
        · exact vendor_runs (.inl hb)
        · exact vendor_runs (.inr (.inr ⟨d, rfl⟩))
    dsimp only
    split
    · exact (psmouseSmbusInit_runs hrole).bind hrest
    · exact hrest false _ (.inl ⟨_, rfl, rfl, rfl⟩)
  · exact .ret ⟨_, rfl, rfl, rfl⟩

/-- The plain handlers are assigned. -/
theorem psmouseApplyDefaults_runs (ha : Cleared role p a) :
    Runs rules a (psmouseApplyDefaults p) fun _ a' => ∃ v, a' = .busy role ⟨p, some .plain, v, .clear⟩ := by
  obtain ⟨b, rfl, rfl, hb⟩ := ha
  refine Runs.perform (o := Op.setHandlers b.mouse .plain) ⟨_, rfl, rfl, .inl ⟨hb, by decide⟩⟩ fun _ a' hm => ?_
  obtain ⟨b', hb', rfl⟩ := hm
  obtain rfl := Option.some.inj hb'
  refine ⟨b.priv, ?_⟩
  rw [← hb]
  rfl

/-- A protocol is tried. -/
theorem tryProtocol_runs {init : Driver Attempt} (ha : Cleared role p a)
    (hinit : ∀ v, Runs rules (.busy role ⟨p, some .plain, v, .clear⟩) init (Tried role p)) :
    Runs rules a (tryProtocol p init) (Tried role p) := by
  refine (psmouseApplyDefaults_runs ha).bind fun _ a' hm => ?_
  obtain ⟨v, rfl⟩ := hm
  refine Runs.op (o := Op.outcome) trivial fun r a' hm => ?_
  subst hm
  split
  · exact hinit v
  · exact .ret ⟨_, rfl, rfl, rfl⟩

/-- An attempt at a protocol without companions leaves the mouse as a plain one. -/
theorem tryPlain_runs (ha : Cleared role p a) :
    Runs rules a (tryProtocol p (pure .ps2)) fun type a' => type ≠ .companion ∧
      ∃ v, a' = .busy role ⟨p, some .plain, v, .clear⟩ := by
  refine (psmouseApplyDefaults_runs ha).bind fun _ a' hm => ?_
  obtain ⟨v, rfl⟩ := hm
  refine Runs.op (o := Op.outcome) trivial fun r a' hm => ?_
  subst hm
  split
  · exact .ret ⟨by decide, v, rfl⟩
  · exact .ret ⟨by decide, v, rfl⟩

/-- A protocol without companions. -/
theorem plain_runs : Runs rules (.busy role ⟨p, some .plain, v, .clear⟩) (pure Attempt.ps2) (Tried role p) :=
  .ret ⟨_, rfl, rfl, .inl ⟨rfl, rfl⟩⟩

/-- The attempts of `psmouse_extensions` come one after the other. -/
theorem chain_runs {init : Driver Attempt} {f : Attempt → Driver Attempt} (ha : Cleared role p a)
    (hinit : ∀ v, Runs rules (.busy role ⟨p, some .plain, v, .clear⟩) init (Tried role p))
    (hps2 : f .ps2 = pure .ps2) (hcompanion : f .companion = pure .companion)
    (hfailed : ∀ a', Cleared role p a' → Runs rules a' (f .failed) fun type a' => type ≠ .failed ∧ Tried role p type a') :
    Runs rules a (tryProtocol p init >>= f) fun type a' => type ≠ .failed ∧ Tried role p type a' := by
  refine (tryProtocol_runs ha hinit).bind fun type a' hm => ?_
  cases type with
  | failed => exact hfailed a' hm
  | ps2 =>
    rw [hps2]
    exact .ret ⟨by decide, hm⟩
  | companion =>
    rw [hcompanion]
    exact .ret ⟨by decide, hm⟩

/-- All protocols are tried, and one is found. -/
theorem psmouseExtensions_runs (hrole : role.Handles p) (ha : Cleared role p a) :
    Runs rules a (psmouseExtensions p) fun type a' => type ≠ .failed ∧ Tried role p type a' := by
  refine chain_runs ha (fun _ => plain_runs) rfl rfl fun a ha => ?_
  refine chain_runs ha (fun _ => touchpadInit_runs hrole) rfl rfl fun a ha => ?_
  refine chain_runs ha (fun _ => plain_runs) rfl rfl fun a ha => ?_
  refine chain_runs ha (fun _ => touchpadInit_runs hrole) rfl rfl fun a ha => ?_
  refine (psmouseApplyDefaults_runs ha).bind fun _ a' hm => ?_
  obtain ⟨v, rfl⟩ := hm
  exact .ret ⟨by decide, _, rfl, rfl, .inl ⟨rfl, rfl⟩⟩

/-- An attempt made for the attribute; for a plain protocol it leaves a plain mouse. -/
theorem psmouseSwitchProtocol_runs {proto : Protocol} (hrole : role.Handles p) (ha : Cleared role p a) :
    Runs rules a (psmouseSwitchProtocol p proto) (Tried role p) := by
  cases proto with
  | plain => exact tryProtocol_runs ha fun _ => plain_runs
  | ps2 =>
    refine tryProtocol_runs ha fun v => (initPs2_runs (.inl rfl)).bind fun ok a' hm => ?_
    obtain ⟨h', w, rfl, _, hok⟩ := hm
    split
    · next hyes => exact .ret ⟨_, rfl, rfl, .inr ⟨hok hyes, .inl rfl⟩⟩
    · exact .ret ⟨_, rfl, rfl, rfl⟩
  | companion w =>
    refine tryProtocol_runs ha fun v => (psmouseSmbusInit_runs hrole).bind fun made a' hm => ?_
    cases made with
    | true =>
      obtain ⟨d, rfl⟩ := hm
      exact .ret ⟨_, rfl, rfl, d, rfl, rfl, rfl⟩
    | false =>
      rcases hm with hm | ⟨hleave, _⟩
      · exact .ret hm
      · cases hleave
  | auto => exact (psmouseExtensions_runs hrole ha).mono fun _ _ hm => hm.2

/-! ## The mouse is left to others -/

/-- What an attempt leaves behind may be left to others, unless it failed. -/
theorem Tried.leaves {type : Attempt} (htype : type ≠ .failed) (ha : Tried role p type a) :
    ∃ b : Bench, a = .busy role b ∧ b.mouse = p ∧ b.Leaves := by
  obtain ⟨b, rfl, rfl, hb⟩ := ha
  refine ⟨b, rfl, rfl, ?_⟩
  cases type with
  | failed => exact absurd rfl htype
  | ps2 =>
    rcases hb with ⟨hh, hk⟩ | ⟨hh, hk | hk⟩ <;> rw [Bench.Leaves, hk]
    · exact .inl hh
    · exact .inr hh
    · exact hh
  | companion =>
    obtain ⟨d, hk, hhooked⟩ := hb
    rw [Bench.Leaves, hk]
    exact hhooked

/-- A thread that holds `psmouse_mutex` and has no mouse in hand. -/
def Account.vacant (role : Role) : Account :=
  { role := role, mutex := true, bench := none, visit := none, loose := none }

/-- The mice are taken. -/
theorem lockPsmouse_runs : Runs rules (.fresh role) (lock .psmouse) fun _ a' => a' = .vacant role :=
  Runs.perform (o := Op.lock .psmouse) ⟨rfl, rfl⟩ fun _ _ hm => hm

/-- The mice are given up before any has been worked on. -/
theorem unlockVacant_runs : Runs rules (.vacant role) (unlock .psmouse) fun _ a' => a' = .fresh role :=
  Runs.perform (o := Op.unlock .psmouse) ⟨rfl, rfl, fun _ h => (by cases h)⟩ fun _ _ hm => hm

/-- The mice are given up after one has been left in order. -/
theorem unlockBusy_runs (hb : b.Leaves) : Runs rules (.busy role b) (unlock .psmouse) fun _ a' => a' = .fresh role := by
  refine Runs.perform (o := Op.unlock .psmouse) ⟨rfl, rfl, fun b' hb' => ?_⟩ fun _ _ hm => hm
  obtain rfl := Option.some.inj hb'
  exact hb

/-- The mouse is disconnected by a thread that has not looked at it. -/
theorem callDisconnect_vacant (hrole : role.Handles p) :
    Runs rules (.vacant role) (callDisconnect p) fun _ => Cleared role p := by
  refine callDisconnect_runs ⟨rfl, hrole, fun _ h => (by cases h)⟩ fun h a' hm => ⟨none, .taken h, hm, ?_, ?_, ?_⟩
  · rintro rfl
    rfl
  · rintro rfl
    rfl
  · rintro rfl
    exact .inr rfl

/-- The mouse is disconnected after an attempt that has made no companion. -/
theorem callDisconnect_tried (hrole : role.Handles p) (ha : Tried role p .ps2 a) :
    Runs rules a (callDisconnect p) fun _ => Cleared role p := by
  obtain ⟨⟨q, h, v, k⟩, rfl, rfl, hb⟩ := ha
  have hsome : h = some .plain ∧ k = .clear ∨ h = some .vendor ∧ (k = .clear ∨ k = .crumbs) := hb
  refine callDisconnect_runs ⟨rfl, hrole, fun b hb => ?_⟩ fun h' a' hm => ?_
  · obtain rfl := Option.some.inj hb
    refine ⟨rfl, ?_⟩
    rcases hsome with ⟨rfl, _⟩ | ⟨rfl, _⟩ <;> rfl
  · obtain ⟨hh, rfl⟩ := hm
    rcases hsome with ⟨rfl, rfl⟩ | ⟨rfl, hk⟩
    · obtain rfl : Handlers.plain = h' := Option.some.inj hh
      exact ⟨v, _, rfl, fun _ => rfl, fun h => (by cases h), fun h => (by cases h)⟩
    · obtain rfl : Handlers.vendor = h' := Option.some.inj hh
      exact ⟨v, _, rfl, fun h => (by cases h), fun h => (by cases h), fun _ => hk⟩

/-- A mouse without records is freed. -/
theorem freeMouse_runs (ha : Cleared (.owning p) p a) :
    Runs rules a (perform (.freeMouse p)) fun _ a' => a' = .vacant .idle := by
  obtain ⟨b, rfl, rfl, hb⟩ := ha
  exact Runs.perform (o := Op.freeMouse b.mouse) ⟨rfl, b, rfl, rfl, hb⟩ fun _ _ hm => hm

/-! ## Calls -/

/-- A mouse is connected. -/
theorem psmouseConnect_runs : Runs rules (.fresh .idle) psmouseConnect fun _ a' => a' = .fresh .idle := by
  refine lockPsmouse_runs.bind fun _ a' hm => ?_
  subst hm
  refine Runs.op (o := Op.newMouse) ⟨rfl, rfl, rfl⟩ fun o a' hm => ?_
  cases o with
  | none =>
    obtain rfl := hm
    exact unlockVacant_runs
  | some p =>
    obtain rfl : a' = .busy (.owning p) ⟨p, some .plain, some .null, .clear⟩ := hm
    have hclear : Cleared (.owning p) p (.busy (.owning p) ⟨p, some .plain, some .null, .clear⟩) := ⟨_, rfl, rfl, rfl⟩
    refine Runs.op (o := Op.outcome) trivial fun r a' hm => ?_
    subst hm
    split
    · refine (psmouseExtensions_runs (.inl rfl) hclear).bind fun type a' hm => ?_
      obtain ⟨htype, htried⟩ := hm
      have hbind : ∀ a', Tried (.owning p) p type a' →
          Runs rules a' (do perform (.activate p); unlock .psmouse; perform (.bind p)) fun _ a' =>
          a' = .fresh .idle := by
        intro a' ha'
        obtain ⟨b, rfl, rfl, hb⟩ := ha'.leaves htype
        refine Runs.op (o := Op.activate b.mouse) rfl fun _ a' hm => ?_
        obtain rfl : a' = .busy (.watching b.mouse) b := hm
        refine (unlockBusy_runs hb).bind fun _ a' hm => ?_
        subst hm
        exact Runs.perform (o := Op.bind b.mouse) rfl fun _ _ hm => hm
      dsimp only
      split
      · exact hbind a' htried
      · next hne =>
        have hps2 : type = .ps2 := by
          cases type with
          | failed => exact absurd rfl htype
          | ps2 => rfl
          | companion => exact absurd rfl hne
        subst hps2
        refine Runs.op (o := Op.inputRegisterDevice false) trivial fun r a' hm => ?_
        obtain ⟨_, rfl⟩ := hm
        cases r with
        | true => exact hbind _ htried
        | false =>
          refine (callDisconnect_tried (.inl rfl) htried).bind fun _ a' ha' => ?_
          refine (freeMouse_runs ha').bind fun _ a' hm => ?_
          subst hm
          exact unlockVacant_runs
    · refine (freeMouse_runs hclear).bind fun _ a' hm => ?_
      subst hm
      exact unlockVacant_runs

/-- A mouse is disconnected. -/
theorem psmouseDisconnect_runs :
    Runs rules (.fresh (.watching p)) (psmouseDisconnect p) fun _ a' => a' = .fresh .idle := by
  refine lockPsmouse_runs.bind fun _ a' hm => ?_
  subst hm
  refine Runs.op (o := Op.command p) (.inr (.inl rfl)) fun _ a' hm => ?_
  subst hm
  refine unlockVacant_runs.bind fun _ a' hm => ?_
  subst hm
  refine Runs.op (o := Op.disableWorkSync p) ⟨rfl, rfl, rfl⟩ fun _ a' hm => ?_
  obtain rfl : a' = .fresh (.owning p) := hm
  refine lockPsmouse_runs.bind fun _ a' hm => ?_
  subst hm
  refine (callDisconnect_vacant (.inl rfl)).bind fun _ a' ha' => ?_
  refine (freeMouse_runs ha').bind fun _ a' hm => ?_
  subst hm
  exact unlockVacant_runs

/-- A callback is through with its mouse. -/
theorem leave_runs : Runs rules (.fresh (.serving p)) (perform (.leave p)) fun _ a' => a' = .fresh .idle :=
  Runs.perform (o := Op.leave p) rfl fun _ _ hm => hm

/-- The companion's mouse is reconnected. -/
theorem psmouseSmbusReconnect_runs :
    Runs rules (.busy (.serving p) ⟨p, some .smbus, none, .settled⟩) (psmouseSmbusReconnect p) fun _ a' =>
      ∃ b : Bench, a' = .busy (.serving p) b ∧ b.Leaves := by
  refine Runs.op (o := Op.priv p) ⟨_, rfl, rfl⟩ fun w a' hm => ?_
  obtain ⟨b, hb, _, hsmbdev, rfl⟩ := hm
  obtain rfl := Option.some.inj hb
  obtain ⟨d, rfl⟩ := hsmbdev rfl rfl
  have hleaves : Bench.Leaves ⟨p, some .smbus, some (.smbdev d), .used d⟩ := ⟨rfl, rfl⟩
  refine Runs.op (o := Op.readDev d) ⟨_, rfl, .inr (.inr rfl)⟩ fun r a' hm => ?_
  obtain ⟨rfl, _⟩ := hm
  split
  · exact Runs.perform (o := Op.command p) (.inr (.inr (.inl rfl))) fun _ a' hm => ⟨_, hm, hleaves⟩
  · exact .ret ⟨_, rfl, hleaves⟩

/-- A mouse is reconnected. -/
theorem psmouseReconnect_runs : Runs rules (.fresh (.serving p)) (psmouseReconnect p) fun _ a' => a' = .fresh .idle := by
  refine lockPsmouse_runs.bind fun _ a' hm => ?_
  subst hm
  have hrest : ∀ b : Bench, b.Leaves →
      Runs rules (.busy (.serving p) b) (do unlock .psmouse; perform (.leave p)) fun _ a' =>
      a' = .fresh .idle := by
    refine fun b hb => (unlockBusy_runs hb).bind fun _ a' hm => ?_
    subst hm
    exact leave_runs
  refine Runs.op (o := Op.handlers p) ⟨rfl, .inr (.inr (.inl rfl)), fun _ h => (by cases h)⟩ fun h a' hm => ?_
  obtain rfl : a' = .busy (.serving p) ⟨p, some h, none, .taken h⟩ := hm
  cases h with
  | smbus =>
    refine psmouseSmbusReconnect_runs.bind fun _ a' hm => ?_
    obtain ⟨b, rfl, hb⟩ := hm
    exact hrest b hb
  | plain => exact hrest _ (.inl rfl)
  | vendor => exact hrest _ (show some Handlers.vendor = some .vendor from rfl)

/-- A mouse is resynchronised. -/
theorem psmouseResync_runs : Runs rules (.fresh (.resyncing p)) (psmouseResync p) fun _ a' => a' = .fresh .idle := by
  refine lockPsmouse_runs.bind fun _ a' hm => ?_
  subst hm
  have hrest : Runs rules (.vacant (.resyncing p)) (do unlock .psmouse; perform (.workDone p)) fun _ a' =>
      a' = .fresh .idle := by
    refine unlockVacant_runs.bind fun _ a' hm => ?_
    subst hm
    exact Runs.perform (o := Op.workDone p) rfl fun _ _ hm => hm
  refine Runs.op (o := Op.outcome) trivial fun r a' hm => ?_
  subst hm
  split
  · refine Runs.op (o := Op.command p) (.inr (.inr (.inr rfl))) fun _ a' hm => ?_
    subst hm
    exact hrest
  · exact hrest

/-- The children go, and the mutex is free in the meantime. -/
theorem awaitChildren_runs {left : ℕ} :
    Runs rules (.vacant (.serving p)) (awaitChildren p left) fun _ a' => a' = .vacant (.serving p) := by
  induction left with
  | zero => exact .ret rfl
  | succ left ih =>
    refine Runs.op (o := Op.outcome) trivial fun r a' hm => ?_
    subst hm
    split
    · refine unlockVacant_runs.bind fun _ a' hm => ?_
      subst hm
      refine Runs.op (o := Op.serioUnregisterChildPort p) ⟨rfl, rfl, rfl⟩ fun _ a' hm => ?_
      subst hm
      refine lockPsmouse_runs.bind fun _ a' hm => ?_
      subst hm
      refine Runs.op (o := Op.outcome) trivial fun r a' hm => ?_
      subst hm
      split
      · exact ih
      · exact .ret rfl
    · exact .ret rfl

/-- The protocol is changed; an input device that cannot be registered is what the driver does not
provide for. -/
theorem changeProtocol_runs {proto oldProto : Protocol} (hrole : role.Handles p) :
    Runs rules (.vacant role) (changeProtocol p proto oldProto) fun _ a' => ∃ b : Bench, a' = .busy role b ∧ b.Leaves := by
  refine (callDisconnect_vacant hrole).bind fun _ a ha => ?_
  refine (psmouseSwitchProtocol_runs hrole ha).bind fun type a ha => ?_
  have hregister : ∀ (b : Bench) (q : Driver Unit), b.Leaves → Runs rules (.busy role b) (do
      if !(← perform (.inputRegisterDevice true)) then q) fun _ a' => ∃ b : Bench, a' = .busy role b ∧ b.Leaves := by
    refine fun b q hb => Runs.op (o := Op.inputRegisterDevice true) trivial fun r a' hm => ?_
    obtain ⟨hr, rfl⟩ := hm
    obtain rfl : r = true := hr rfl
    exact .ret ⟨b, rfl, hb⟩
  cases type with
  | failed =>
    refine (tryPlain_runs (Tried.of_cleared ha)).bind fun _ a hm => ?_
    obtain ⟨_, v, rfl⟩ := hm
    exact hregister _ _ (.inl rfl)
  | ps2 =>
    obtain ⟨b, rfl, _, hb⟩ := ha.leaves (by decide)
    exact hregister b _ hb
  | companion =>
    obtain ⟨b, rfl, _, hb⟩ := ha.leaves (by decide)
    exact .ret ⟨b, rfl, hb⟩

/-- The protocol is changed from user space. -/
theorem psmouseAttrSetProtocol_runs {proto oldProto : Protocol} :
    Runs rules (.fresh (.serving p)) (psmouseAttrSetProtocol p proto oldProto) fun _ a' => a' = .fresh .idle := by
  refine lockPsmouse_runs.bind fun _ a' hm => ?_
  subst hm
  have hunlocked : ∀ a, Runs rules a (unlock .psmouse) (fun _ a' => a' = .fresh (.serving p)) →
      Runs rules a (do unlock .psmouse; perform (.leave p)) fun _ a' => a' = .fresh .idle := by
    refine fun a ha => ha.bind fun _ a' hm => ?_
    subst hm
    exact leave_runs
  refine Runs.op (o := Op.outcome) trivial fun r a' hm => ?_
  subst hm
  dsimp only
  split
  · refine awaitChildren_runs.bind fun r a' hm => ?_
    subst hm
    split
    · refine (changeProtocol_runs (.inr (.inr (.inl rfl)))).bind fun _ a' hm => ?_
      obtain ⟨b, rfl, hb⟩ := hm
      exact hunlocked _ (unlockBusy_runs hb)
    · exact hunlocked _ unlockVacant_runs
  · exact hunlocked _ unlockVacant_runs

/-- An adapter is registered. -/
theorem i2cRegisterAdapter_runs {hostNotify : Bool} :
    Runs rules (.fresh .idle) (i2cRegisterAdapter hostNotify) fun _ a' => a' = .fresh .idle := by
  refine Runs.op (o := Op.busAdd hostNotify) trivial fun adapter a' hm => ?_
  subst hm
  exact psmouseSmbusCheckAdapter_runs

end HostNotify.Psmouse
