import HostNotify.Balance
import HostNotify.Interleaving.Confine
import HostNotify.Tacit

/-!
# What the callbacks intend

`want_listen` and `resume_listen` record that the slave is to listen, now or after the system has
slept; `listening` records that it does. Only the callbacks change the intent, and between any two
of them a started device that is awake is wanted.
-/

namespace HostNotify

open Bits Interleaving

variable {k : Setting} {b : Board} {s s' : St} {t u : ℕ}

/-- The flags of intent, and where the device is in its life. -/
structure Intent where
  serving : Bool
  bound : Bool
  asleep : Bool
  enabling : Bool
  active : Bool
  want : Bool
  resume : Bool

/-- The intent in a state. -/
def St.intent (s : St) : Intent :=
  { serving := s.life.serving, bound := s.life.bound, asleep := s.life.asleep
    enabling := s.life.enabling, active := s.asf.active, want := s.asf.wantListen, resume := s.asf.resumeListen }

namespace Intent

/-- A started device that is awake is wanted. -/
def Wanted (i : Intent) : Prop :=
  i.serving = true → i.active = true → i.asleep = false → i.want = true

/-- Callbacks other than suspend and resume uphold what is wanted. -/
def Upheld (c : CoreCall) (i : Intent) : Prop := c ≠ .suspend → c ≠ .resume → i.Wanted

/-- What holds while no callback is in progress. -/
structure Rest (i : Intent) : Prop where
  bound : i.serving = true → i.bound = true
  wanted : i.Wanted
  pledged : i.serving = true → i.active = true → i.asleep = true → i.resume = true

end Intent

/-! ## What is known of the steps -/

/-- The operation leaves the intent alone. -/
def Op.Unwilled : Op → Prop
  | .setAsf f => ∀ a, (f a).active = a.active ∧ (f a).wantListen = a.wantListen ∧
      (f a).resumeListen = a.resumeListen
  | .coreDone _ => False
  | _ => True

/-- A tacit operation does not change what is wanted. -/
theorem Op.Tacit.unwilled {o : Op} (h : o.Tacit) : o.Unwilled := by
  cases o <;> first | exact trivial | exact h.elim

/-- A port read leaves the driver's globals alone. -/
theorem portRead_intent (port : ℕ) :
    (s.portRead b port).2.life = s.life ∧ (s.portRead b port).2.asf = s.asf := by
  unfold St.portRead
  split <;> exact ⟨rfl, rfl⟩

/-- A port write leaves the driver's globals alone. -/
theorem portWrite_intent (v : Byte) (port : ℕ) :
    (s.portWrite b t v port).life = s.life ∧ (s.portWrite b t v port).asf = s.asf := by
  unfold St.portWrite
  split <;> exact ⟨rfl, rfl⟩

/-- Equal lives and globals have equal intents. -/
theorem intent_eq (hlife : s'.life = s.life) (hasf : s'.asf = s.asf) :
    s'.life.owner = s.life.owner ∧ s'.intent = s.intent := by
  unfold St.intent
  rw [hlife, hasf]
  exact ⟨rfl, rfl⟩

/-- An operation without a will leaves what is wanted as it is. -/
theorem Op.Unwilled.exec {o : Op} {r : o.Ans} (ho : o.Unwilled) (he : exec b t o s = some (r, s')) :
    s'.life.owner = s.life.owner ∧ s'.intent = s.intent := by
  cases o with
  | inb port =>
    obtain rfl : (s.portRead b port).2 = s' := congrArg Prod.snd (Option.some.inj he)
    exact intent_eq (portRead_intent port).1 (portRead_intent port).2
  | outb v port =>
    obtain rfl : s.portWrite b t v port = s' := congrArg Prod.snd (Option.some.inj he)
    exact intent_eq (portWrite_intent v port).1 (portWrite_intent v port).2
  | setAsf f =>
    cases he
    obtain ⟨hactive, hwant, hresume⟩ := ho s.asf
    refine ⟨rfl, ?_⟩
    simp only [St.intent, hactive, hwant, hresume]
  | lock l =>
    obtain ⟨_, rfl⟩ := exec_lock he
    cases l <;> exact ⟨rfl, rfl⟩
  | unlock l =>
    cases he
    cases l <;> exact ⟨rfl, rfl⟩
  | requestMemRegionMuxed =>
    simp only [HostNotify.exec] at he
    split at he
    · cases he
    · split at he <;> cases he <;> exact ⟨rfl, rfl⟩
  | requestMuxedRegion start len =>
    simp only [HostNotify.exec] at he
    split at he
    · cases he
    · split at he <;> cases he <;> exact ⟨rfl, rfl⟩
  | requestRegion start len =>
    simp only [HostNotify.exec] at he
    split at he <;> cases he <;> exact ⟨rfl, rfl⟩
  | freeIrq =>
    simp only [HostNotify.exec] at he
    split at he
    · cases he
    · cases he
      exact ⟨rfl, rfl⟩
  | i2cAddAdapter algo =>
    cases he
    unfold St.intent
    dsimp only
    split <;> exact ⟨rfl, rfl⟩
  | i2cDelAdapter =>
    simp only [HostNotify.exec] at he
    split at he
    · cases he
      exact ⟨rfl, rfl⟩
    · cases he
  | coreDone c => exact ho.elim
  | _ =>
    cases he
    exact ⟨rfl, rfl⟩

/-- An account that is not a callback's leaves the intent alone. -/
theorem Hand.unwilled {m : Hand} {o : Op} (hallow : m.allows k b o) (hrole : ∀ c v, m.role ≠ .core c v) :
    o.Unwilled := by
  cases o with
  | setAsf f =>
    rcases hallow with ⟨_, _, _, hf⟩ | ⟨c, v, hcore, _⟩
    · intro a
      rw [hf a]
      exact ⟨rfl, rfl, rfl⟩
    · exact absurd hcore (hrole c v)
  | coreDone d =>
    obtain ⟨_, c, v, hcore, _⟩ := hallow
    exact absurd hcore (hrole c v)
  | _ => exact trivial

/-- What has been established about the steps of all runs. -/
def known (k : Setting) (b : Board) : Known St where
  own t s s' := Inv k b s' ∧ (∀ u, u ≠ t → Rely k b u s s') ∧
    (s.life.owner ≠ some t → s'.life.owner ≠ some t →
      s'.life.owner = s.life.owner ∧ s'.intent = s.intent)
  event _ s' := Inv k b s'

/-- A call of others leaves what is wanted as it is. -/
theorem enter_intent {c : Call} (he : enter k b c t s = some s') (hnot : s'.life.owner ≠ some t) :
    s'.life.owner = s.life.owner ∧ s'.intent = s.intent := by
  cases c with
  | transfer x =>
    obtain ⟨_, he⟩ := Option.ite_none_right_eq_some.mp he
    cases he
    exact ⟨rfl, rfl⟩
  | plainTransfer x =>
    obtain ⟨_, he⟩ := Option.ite_none_right_eq_some.mp he
    cases he
    exact ⟨rfl, rfl⟩
  | mainTransfer a x =>
    obtain ⟨_, he⟩ := Option.ite_none_right_eq_some.mp he
    cases he
    exact ⟨rfl, rfl⟩
  | irqThread =>
    obtain ⟨_, he⟩ := Option.ite_none_right_eq_some.mp he
    cases he
    exact ⟨rfl, rfl⟩
  | core c =>
    obtain ⟨_, he⟩ := Option.ite_none_right_eq_some.mp he
    cases he
    exact absurd (by cases c <;> rfl) hnot

/-- A callback begins when no other is in progress. -/
theorem enter_owner {c : Call} (he : enter k b c t s = some s') (hnot : s.life.owner ≠ some t)
    (howner : s'.life.owner = some t) : s.life.owner = none := by
  cases c with
  | core c =>
    obtain ⟨hmay, _⟩ := Option.ite_none_right_eq_some.mp he
    exact mayBegin_owner hmay
  | _ =>
    obtain ⟨_, he⟩ := Option.ite_none_right_eq_some.mp he
    cases he
    exact absurd howner hnot

/-- The ledger of what is wanted is valid in every run. -/
theorem known_valid (k : Setting) (b : Board) : (known k b).Valid (machine k b) (Unbound k) where
  exec p i c o q r s' h hi hadm hexec := by
    obtain ⟨hguar, hinv⟩ := (covered h).step hi hadm hexec
    obtain ⟨m, _, htie, hallow, _⟩ := (covers h).thread i c _ hi
    refine ⟨hinv, hguar, fun hnot _ => ?_⟩
    refine (Hand.unwilled hallow fun c v hcore => hnot ?_).exec hexec
    exact htie.owner.mpr ⟨c, v, hcore, trivial⟩
  enter p c s' h henter := by
    have habsent := (covered h).absent p.threads.length le_rfl
    obtain ⟨hinv, hrely⟩ := (safety k b).enter_keeps c _ _ s' henter (reachable_inv h) habsent
    exact ⟨hinv, hrely, fun _ hnot => enter_intent henter hnot⟩
  react p e s' h hreact := (reachable_inv h).react hreact

/-! ## The argument -/

/-- The machine with the steps that are known to be the only ones. -/
noncomputable def settled (k : Setting) (b : Board) : Machine St Op Op.Ans Call Event :=
  (machine k b).confine (known k b)

/-- What a thread can count on: a callback that is in progress keeps its intent. -/
structure Leaves (k : Setting) (b : Board) (u : ℕ) (s s' : St) : Prop where
  rely : Rely k b u s s'
  owner : s.life.owner = some u → s'.life.owner = some u ∧ s'.intent = s.intent
  stranger : s.life.owner ≠ some u → s'.life.owner ≠ some u

/-- The checks at single operations. -/
structure Vows (c : Call) (o : Op) (s : St) : Prop where
  /-- Only a wanted slave is armed. -/
  arm : (∃ x, c = .transfer x) ∨ c = .irqThread → o = .mark .armBegin → s.asf.wantListen = true
  /-- A transfer leaves a wanted slave listening. -/
  finish : ∀ x, c = .transfer x → o = .mark .transferEnd → s.asf.wantListen = true →
    s.asf.listening = true
  /-- Callbacks take back nothing that others count on. -/
  upheld : ∀ d, c = .core d → s.intent.Upheld d

/-- No operation gives a thread the ownership of a callback. -/
theorem exec_owner {o : Op} {r : o.Ans} (he : exec b t o s = some (r, s'))
    (hnot : s.life.owner ≠ some u) : s'.life.owner ≠ some u := by
  have hkept : o.Unwilled → s'.life.owner ≠ some u := fun ho => by
    rw [(ho.exec he).1]
    exact hnot
  cases o with
  | coreDone d =>
    cases he
    cases d <;> nofun
  | setAsf f =>
    cases he
    exact hnot
  | _ => exact hkept trivial

/-- What a known step of one thread leaves to the others. -/
theorem known_leaves {o : Op} {r : o.Ans} (he : exec b t o s = some (r, s'))
    (hown : (known k b).own t s s') (hu : u ≠ t) : Leaves k b u s s' where
  rely := hown.2.1 u hu
  owner ho := by
    have hnot : s.life.owner ≠ some t := fun h => hu (Option.some.inj (ho.symm.trans h))
    obtain ⟨howner, hintent⟩ := hown.2.2 hnot (exec_owner he hnot)
    exact ⟨howner.trans ho, hintent⟩
  stranger := exec_owner he

/-- An event touches neither the callbacks nor the intent. -/
theorem event_leaves {e : Event} (hs : Inv k b s) (he : react k b e s = some s') (u : ℕ) :
    Leaves k b u s s' := by
  have hframe := react_frame he hs.smba
  have hsame : s'.intent = s.intent := by
    unfold St.intent
    rw [hframe.life, hframe.asf]
  refine ⟨Or.inl ⟨e, he⟩, fun ho => ⟨?_, hsame⟩, fun hnot => ?_⟩
  · rw [hframe.life]
    exact ho
  · rw [hframe.life]
    exact hnot

/-- The calls of the driver, as far as the intent is concerned. -/
noncomputable def pledges (k : Setting) (b : Board) : Proof (settled k b) where
  inv s := Inv k b s ∧ (s.life.owner = none → s.intent.Rest)
  rely := Leaves k b
  ok := Vows
  done _ _ _ := True
  absent t s := s.life.owner ≠ some t
  absent_keeps _ _ _ _ h hr _ := hr.stranger h
  event_keeps e s s' he hs := by
    obtain ⟨he, hinv⟩ := Machine.confine_react.mp he
    have hframe := react_frame he hs.1.smba
    refine ⟨⟨hinv, fun hnone => ?_⟩, event_leaves hs.1 he⟩
    have hrest := hs.2 (hframe.life ▸ hnone)
    unfold St.intent
    rw [hframe.life, hframe.asf]
    exact hrest
  enter_keeps c t s s' he hs habsent := by
    obtain ⟨he, hown⟩ := Machine.confine_enter.mp he
    by_cases howner : s'.life.owner = some t
    · have hnone := enter_owner he habsent howner
      refine ⟨⟨hown.1, fun h => absurd (h.symm.trans howner) nofun⟩,
        fun u hu => ⟨hown.2.1 u hu, fun ho => ?_, fun _ ho => ?_⟩⟩
      · exact absurd (hnone.symm.trans ho) nofun
      · exact hu (Option.some.inj (ho.symm.trans howner))
    · obtain ⟨hsame, hintent⟩ := hown.2.2 habsent howner
      refine ⟨⟨hown.1, fun hnone => ?_⟩, fun u hu => ⟨hown.2.1 u hu, fun ho => ⟨hsame.trans ho, hintent⟩, fun hnot => ?_⟩⟩
      · rw [hintent]
        exact hs.2 (hsame ▸ hnone)
      · rw [hsame]
        exact hnot

end HostNotify
