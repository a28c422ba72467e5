import HostNotify.Psmouse.Enlisting

/-!
# Through the list

A walk through the list: every record is read, and what has been read stays true until the mutex is
given up.
-/

namespace HostNotify.Psmouse

open Interleaving

variable {s s' : Board} {t u : ℕ} {p d c : Addr} {r : SmbusDev} {l l' : Account}

/-! ## Nothing that matters changes -/

/-- The surroundings have changed. -/
def Board.around (s : Board) (w : World) (adapters : ℕ) (present hostNotify : ℕ → Bool) (lapse : Bool) : Board :=
  { s with world := w, adapters := adapters, present := present, hostNotify := hostNotify, lapse := lapse }

section Around

variable {w : World} {n : ℕ} {present hostNotify : ℕ → Bool} {lapse : Bool}

/-- The invariant does not speak of the world. -/
theorem Board.Sound.around (hs : s.Sound) : (s.around w n present hostNotify lapse).Sound := { hs with }

/-- An account does not speak of the world. -/
theorem Tie.around (hs : s.Sound) (ht : Tie t l s) : Tie t l (s.around w n present hostNotify lapse) where
  role := by refine ht.role.of_eq ?_ ?_ ?_ ?_ ?_ <;> rfl
  resync := ht.resync
  mutex := ht.mutex
  benched := ht.benched
  bench b hb := by refine (ht.bench b hb).of_eq ?_ ?_ ?_ ?_ ?_ <;> rfl
  rest := ht.rest
  smbus := ht.smbus
  visit x hx := by refine (ht.visit x hx).of_eq hs ?_ ?_ ?_ ?_ ?_ <;> rfl
  loose := ht.loose

/-- An operation that changes nothing else. -/
theorem around_kept {o : Op} {a : o.Ans} (w : World) (n : ℕ) (present hostNotify : ℕ → Bool)
    (lapse : Bool) (hs : s.Sound) (ht : Tie t l' s) (hmoves : l.moves o a l') :
    Kept t l o a s (s.around w n present hostNotify lapse) where
  inv := hs.around
  account := ⟨l', hmoves, ht.around hs⟩
  others _ _ := ⟨Iff.rfl, Iff.rfl, .of_eq rfl rfl rfl rfl rfl, fun _ => .of_eq rfl rfl rfl rfl rfl,
    fun _ => .of_eq rfl rfl rfl rfl, fun _ => Iff.rfl⟩

/-- The thread has learned something. -/
theorem learn_kept {o : Op} {a : o.Ans} (hs : s.Sound) (ht : Tie t l' s) (hmoves : l.moves o a l') : Kept t l o a s s :=
  around_kept s.world s.adapters s.present s.hostNotify s.lapse hs ht hmoves

end Around

/-! ## Reading -/

section Read

variable (hs : s.Sound) (ht : Tie t l s)
include hs ht

omit ht in
/-- A walker reads the next record. -/
theorem Walk.read {gone : Option Addr} {todo : List Addr} {seen : List (Addr × SmbusDev)} {look : Look}
    (hw : Walk t s gone (d :: todo) seen look) :
    ∃ r, s.Listed d r ∧ Walk t s gone todo ((d, r) :: seen) .fresh := by
  obtain ⟨r, hr, _⟩ := hs.listed d (hw.ahead d List.mem_cons_self)
  have hlisted : s.Listed d r := ⟨hw.ahead d List.mem_cons_self, hr⟩
  have hperm : (d :: todo ++ seen.map Prod.fst).Perm (todo ++ d :: seen.map Prod.fst) := List.perm_middle.symm
  refine ⟨r, hlisted, hperm.nodup_iff.mp hw.nodup, fun e he => ?_, fun e he => hw.ahead e (List.mem_cons_of_mem _ he),
    fun x hx => ?_, hw.neat, fun c e y hc hy hcy hdy hat => ?_, fun h => (by cases h), hw.leaving⟩
  · rcases hw.covers e he with h | h
    · rcases List.mem_cons.mp h with rfl | h
      · exact .inr List.mem_cons_self
      · exact .inl h
    · exact .inr (List.mem_cons_of_mem _ h)
  · rcases List.mem_cons.mp hx with rfl | hx
    · exact ⟨r, hlisted, rfl, rfl, fun _ _ => Iff.rfl⟩
    · exact hw.mirrors x hx
  · refine hw.dead c e y hc hy hcy hdy (.inl ?_)
    rcases hat with h | ⟨_, r', rest, hseen⟩
    · exact List.mem_cons_of_mem _ h
    · obtain ⟨hhead, _⟩ := List.cons.inj hseen
      rw [(Prod.mk.inj hhead).1]
      exact List.mem_cons_self

omit hs in
/-- The visit to the list has another purpose. -/
theorem Tie.turned {x : Visit} (hlock : s.smbusMutex = some t) (hx : x.Holds t s) : Tie t (l.turn x) s :=
  { ht with
    smbus := ⟨fun _ => hlock, fun _ => rfl⟩
    visit := fun y hy => by
      obtain rfl := Option.some.inj hy
      exact hx }

/-- A record is read. -/
theorem readDev_kept (hallow : l.allows (.readDev d)) : ∃ r, s.smbdev d = some r ∧ Kept t l (.readDev d) r s s := by
  simp only [Account.allows] at hallow
  split at hallow
  · next hvisit =>
    obtain ⟨b, hb, hk⟩ := hallow
    have hstage := (ht.bench b hb).stage
    have hread : ∃ r, s.smbdev d = some r ∧ (b.stage = .listed d → r.client = none) ∧
        ∀ c, b.stage = .noted d c → r.client = some c := by
      rcases hk with hk | ⟨c, hk⟩ | hk
      · rw [hk] at hstage
        obtain ⟨_, _, r, hr, _, hc, _⟩ := hstage
        exact ⟨r, hr.2, fun _ => hc, fun _ h => by cases hk.symm.trans h⟩
      · rw [hk] at hstage
        obtain ⟨_, _, ⟨r, hr, _, hc⟩, _⟩ := hstage
        refine ⟨r, hr.2, fun h => (by cases hk.symm.trans h), fun c' h => ?_⟩
        obtain ⟨_, rfl⟩ := Stage.noted.inj (hk.symm.trans h)
        exact hc
      · rw [hk] at hstage
        obtain ⟨_, _, r, hr, _⟩ := hstage
        exact ⟨r, hr.2, fun h => (by cases hk.symm.trans h), fun _ h => by cases hk.symm.trans h⟩
    obtain ⟨r, hr, hfacts⟩ := hread
    refine ⟨r, hr, learn_kept hs ht ?_⟩
    simp only [Account.moves, hvisit]
    refine ⟨trivial, fun b' hb' => ?_⟩
    obtain rfl := Option.some.inj (hb.symm.trans hb')
    exact hfacts
  · next hvisit =>
    obtain ⟨b, hb, hk⟩ := hallow
    have hstage := (ht.bench b hb).stage
    rw [hk] at hstage
    obtain ⟨_, _, r, hr, _, hc⟩ := hstage
    have hturned := ht.turned (x := .posting d r) (ht.at_list hvisit) ⟨ht.at_bench hb, ht.visit _ hvisit, hr⟩
    refine ⟨r, hr.2, learn_kept hs hturned ?_⟩
    simp only [Account.moves, hvisit]
    exact ⟨trivial, hc⟩
  · next gone todo seen look hvisit =>
    obtain ⟨_, rest, rfl⟩ := hallow
    obtain ⟨r, hr, hw⟩ := Walk.read hs (ht.visit _ hvisit)
    refine ⟨r, hr.2, learn_kept hs (ht.turned (x := .walking gone rest ((d, r) :: seen) .fresh) (ht.at_list hvisit) hw) ?_⟩
    simp only [Account.moves, hvisit, List.tail_cons]
  · exact hallow.elim

/-- A walk begins that looks for no client. -/
theorem entries_kept (hallow : l.allows (.entries none)) : Kept t l (.entries none) s.list s s := by
  obtain ⟨hvisit, _⟩ := hallow
  have hneat : ∀ e, s.Neat e := ht.visit _ hvisit
  have hw : Walk t s none s.list [] .past := by
    refine ⟨by simpa using hs.nodup, fun _ => .inl, fun _ => id, fun x hx => ?_, fun e _ => hneat e, fun _ _ _ h => ?_,
      fun h => ?_, fun _ h => ?_⟩
    · cases hx
    · cases h
    · cases h
    · cases h
  exact learn_kept hs (ht.turned (x := .walking none s.list [] .past) (ht.at_list hvisit) hw) rfl

/-! ## Mice and clients that are there -/

/-- The mouse of a record the walker has read is there. -/
theorem rescan_there (hallow : l.allows (.rescan d)) : ∃ r m, s.smbdev d = some r ∧ s.mouse r.psmouse = some m := by
  obtain ⟨gone, todo, r, rest, look, hvisit, hlook⟩ := hallow
  have hw : Walk t s gone todo ((d, r) :: rest) look := ht.visit _ hvisit
  obtain ⟨r₀, hr, hm⟩ := hw.mirrors (d, r) List.mem_cons_self
  rcases hlook with hdead | hmarked
  · obtain ⟨m, hmouse⟩ := hs.alive d r₀ hr (hm.dead.trans hdead)
    exact ⟨r₀, m, hr.2, hmouse⟩
  · obtain ⟨⟨m, hmouse, _⟩, _⟩ := hw.marked hmarked d r rest rfl
    exact ⟨r₀, m, hr.2, hm.psmouse ▸ hmouse⟩

omit hs in
/-- What a link joins is there. -/
theorem linkRemove_there {o : Option Addr} (hallow : l.allows (.linkRemove o p)) :
    (∃ m, s.mouse p = some m) ∧ ∃ c x, o = some c ∧ s.client c = some x := by
  simp only [Account.allows] at hallow
  split at hallow
  · next d c hvisit =>
    obtain ⟨rfl, b, hb, rfl⟩ := hallow
    obtain ⟨m, hm, _⟩ := (ht.bench b hb).fields
    obtain ⟨_, _, _, x, hx, _⟩ := ht.visit _ hvisit
    exact ⟨⟨m, hm⟩, c, x, rfl, hx⟩
  · next c todo seen look hvisit =>
    obtain ⟨rfl, _, hlook, d, r, rest, rfl, rfl⟩ := hallow
    have hw : Walk t s (some c) todo ((d, r) :: rest) look := ht.visit _ hvisit
    obtain ⟨⟨m, hm, _⟩, _⟩ := hw.marked hlook d r rest rfl
    obtain ⟨x, hx, _⟩ := hw.leaving c rfl
    exact ⟨⟨m, hm⟩, c, x, rfl, hx⟩
  · exact hallow.elim

end Read

end HostNotify.Psmouse
