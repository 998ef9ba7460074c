import Clearotron.Runner.Claims

/-!
# One runner has a claim

While nobody's sidecars are removed under them, the token on a claim is the one of the live
runner that has it, so there is only one. What one step of a runner keeps of this is stated
once, in terms of what the step changed; each step then says what it changed.
-/

namespace Clearotron

namespace ClaimFolder

variable {s s' : ClaimFolder} {r : Runner}

/-- No live runner has the claim. -/
def Calm (s : ClaimFolder) : Prop := ∀ w, s.alive w = true → (s.pc w).covers = false

/-- No live runner but this one has the claim. -/
def Others (s : ClaimFolder) (r : Runner) : Prop :=
  ∀ w, w ≠ r → s.alive w = true → (s.pc w).covers = false

theorem Calm.others (calm : s.Calm) (r : Runner) : s.Others r := fun w _ lives => calm w lives

/-- The file has one name. -/
def OneName (present : Place → Bool) : Prop := ∃ p, present = fun q => decide (q = p)

namespace OneName

variable {present : Place → Bool}

theorem eq (one : OneName present) {p q : Place} (hp : present p = true) (hq : present q = true) :
    p = q := by
  obtain ⟨at', rfl⟩ := one
  exact (of_decide_eq_true hp).trans (of_decide_eq_true hq).symm

/-- A rename leaves it under the new name only. -/
theorem move_eq (one : OneName present) {src dst : Place} (there : present src = true) :
    move present src dst = fun q => decide (q = dst) := by
  obtain ⟨at', rfl⟩ := one
  obtain rfl := of_decide_eq_true there
  funext q
  unfold move
  by_cases isDst : q = dst
  · simp [isDst]
  · by_cases isSrc : q = src
    · simp [isSrc ▸ isDst, isSrc]
    · simp [isDst, isSrc]

theorem moved (one : OneName present) {src dst q : Place} (there : present src = true) :
    move present src dst q = true ↔ q = dst := by
  rw [one.move_eq there]
  exact decide_eq_true_iff

end OneName

/-- What the folder and the runners in it agree on. -/
structure Sound (s : ClaimFolder) : Prop where
  one : OneName s.present
  locks : ∀ w, s.alive w = true → (s.pc w).locks = true → s.present (.lock w) = true
  token : ∀ w, s.alive w = true → (s.pc w).wrote = true → s.tokenTmp = some w
  covers : ∀ w, s.alive w = true → (s.pc w).covers = true → s.side .pid = some w
  rests : ∀ p : Place, p.resting = true → s.present p = true → s.Calm
  clears : ∀ w, s.alive w = true → (s.pc w).clears = true → s.Calm
  sweeps : ∀ w moved todo, s.alive w = true → s.pc w = .sweeping moved todo →
    (s.present moved = true ∧ moved.settled = true) ∨
      (moved = .postponed ∧ s.present .cancelled = true)

/-- How a step of a runner may rename the file: from a name no other live runner locks, and to
one it rests under only when nobody has the claim. -/
structure Moves (s : ClaimFolder) (r : Runner) (pc : ClaimAt) (src dst : Place) : Prop where
  there : s.present src = true
  leaves : src.leaves = true
  own : ∀ t, src = .lock t → t = r ∨ s.alive t = false
  rests : dst.resting = true → s.Others r ∧ pc.covers = false
  parked : src = .postponed →
    dst = .cancelled ∨ ∀ w todo, s.alive w = true → s.pc w ≠ .sweeping .postponed todo

/-- What a step of a runner has to say for itself. -/
structure Acts (s : ClaimFolder) (r : Runner) (present : Place → Bool)
    (side : Sidecar → Option Runner) (tokenTmp : Option Runner) (pc : ClaimAt) : Prop where
  alive : s.alive r = true
  moves : present = s.present ∨ ∃ src dst, Moves s r pc src dst ∧ present = move s.present src dst
  lock : pc.locks = true → present (.lock r) = true
  tmp : tokenTmp = s.tokenTmp ∨ (s.pc r).locks = true
  wrote : pc.wrote = true → tokenTmp = some r
  pid : side .pid = s.side .pid ∨ s.Others r
  covers : pc.covers = true → side .pid = some r
  arises : pc.covers = true → (s.pc r).covers = true ∨ (s.pc r).locks = true
  clears : pc.clears = true → s.Others r
  sweeps : ∀ moved todo, pc = .sweeping moved todo →
    (present moved = true ∧ moved.settled = true) ∨
      (moved = .postponed ∧ present .cancelled = true)

theorem not_covers_of_clears {pc : ClaimAt} (clears : pc.clears = true) : pc.covers = false := by
  cases pc <;> first | rfl | cases clears

theorem locks_of_clears {pc : ClaimAt} (clears : pc.clears = true) : pc.locks = true := by
  cases pc <;> first | rfl | cases clears

theorem locks_of_wrote {pc : ClaimAt} (wrote : pc.wrote = true) : pc.locks = true := by
  cases pc <;> first | rfl | cases wrote

theorem postponed_of {p : Place} (leaves : p.leaves = true) (settled : p.settled = true) :
    p = .postponed := by
  cases p <;> simp_all [Place.leaves, Place.settled]

namespace Sound

/-- No two live runners hold a lock. -/
theorem lock_eq (sound : s.Sound) {w : Runner} (alive : s.alive r = true) (lives : s.alive w = true)
    (mine : (s.pc r).locks = true) (theirs : (s.pc w).locks = true) : w = r := by
  have same := sound.one.eq (sound.locks w lives theirs) (sound.locks r alive mine)
  exact Place.lock.inj same

theorem acts (sound : s.Sound) {present : Place → Bool} {side : Sidecar → Option Runner}
    {tokenTmp : Option Runner} {pc : ClaimAt} {stray : Bool}
    (acts : Acts s r present side tokenTmp pc) :
    Sound { present, side, tokenTmp, pc := Function.update s.pc r pc, alive := s.alive, stray } := by
  have other {w : Runner} (ne : w ≠ r) : Function.update s.pc r pc w = s.pc w :=
    Function.update_of_ne ne _ _
  have mine : Function.update s.pc r pc r = pc := Function.update_self ..
  -- nobody has the claim after the step, if nobody had it before and the step does not take it
  have calm (others : s.Others r) (idle : pc.covers = false) :
      ∀ w, s.alive w = true → (Function.update s.pc r pc w).covers = false := by
    intro w lives
    by_cases isR : w = r
    · rw [isR, mine]
      exact idle
    · rw [other isR]
      exact others w isR lives
  -- a claim does not arise while another live runner has a lock, or the file rests
  have quiet (calm : s.Calm) (unlocked : (s.pc r).locks = true → False) : pc.covers = false := by
    cases covers : pc.covers with
    | false => rfl
    | true =>
        obtain had | locked := acts.arises covers
        · rw [calm r acts.alive] at had
          cases had
        · exact (unlocked locked).elim
  constructor
  · obtain same | ⟨src, dst, moves, moved⟩ := acts.moves
    · rw [same]
      exact sound.one
    · rw [moved]
      exact ⟨dst, sound.one.move_eq moves.there⟩
  · intro w lives locks
    dsimp only at lives locks ⊢
    by_cases isR : w = r
    · rw [isR, mine] at locks
      rw [isR]
      exact acts.lock locks
    · rw [other isR] at locks
      have before := sound.locks w lives locks
      obtain same | ⟨src, dst, moves, moved⟩ := acts.moves
      · rw [same]
        exact before
      · obtain isMine | dead := moves.own w (sound.one.eq moves.there before)
        · exact absurd isMine isR
        · rw [lives] at dead
          cases dead
  · intro w lives wrote
    dsimp only at lives wrote ⊢
    by_cases isR : w = r
    · rw [isR, mine] at wrote
      rw [isR]
      exact acts.wrote wrote
    · rw [other isR] at wrote
      obtain same | locked := acts.tmp
      · rw [same]
        exact sound.token w lives wrote
      · exact absurd (sound.lock_eq acts.alive lives locked (locks_of_wrote wrote)) isR
  · intro w lives covers
    dsimp only at lives covers ⊢
    by_cases isR : w = r
    · rw [isR, mine] at covers
      rw [isR]
      exact acts.covers covers
    · rw [other isR] at covers
      obtain same | others := acts.pid
      · rw [same]
        exact sound.covers w lives covers
      · rw [others w isR lives] at covers
        cases covers
  · intro p rests there
    dsimp only at there
    obtain same | ⟨src, dst, moves, moved⟩ := acts.moves
    · rw [same] at there
      have before := sound.rests p rests there
      apply calm (before.others r)
      apply quiet before
      intro locked
      have isLock := sound.one.eq there (sound.locks r acts.alive locked)
      rw [isLock] at rests
      cases rests
    · rw [moved, sound.one.moved moves.there] at there
      rw [there] at rests
      obtain ⟨others, idle⟩ := moves.rests rests
      exact calm others idle
  · intro w lives clears
    dsimp only at lives clears
    by_cases isR : w = r
    · rw [isR, mine] at clears
      exact calm (acts.clears clears) (not_covers_of_clears clears)
    · rw [other isR] at clears
      have before := sound.clears w lives clears
      apply calm (before.others r)
      apply quiet before
      intro locked
      exact isR (sound.lock_eq acts.alive lives locked (locks_of_clears clears))
  · intro w moved' todo lives isSweep
    dsimp only at lives isSweep ⊢
    by_cases isR : w = r
    · rw [isR, mine] at isSweep
      exact acts.sweeps moved' todo isSweep
    · rw [other isR] at isSweep
      have before := sound.sweeps w moved' todo lives isSweep
      obtain same | ⟨src, dst, moves, moved⟩ := acts.moves
      · rw [same]
        exact before
      · obtain ⟨there, settled⟩ | ⟨-, there⟩ := before
        · have isSrc := sound.one.eq moves.there there
          have parked : src = .postponed := postponed_of moves.leaves (isSrc ▸ settled)
          obtain rfl | swept := moves.parked parked
          · right
            exact ⟨isSrc.symm.trans parked, by rw [moved, sound.one.moved moves.there]⟩
          · rw [← isSrc, parked] at isSweep
            exact absurd isSweep (swept w todo lives)
        · have leaves := moves.leaves
          rw [sound.one.eq moves.there there] at leaves
          cases leaves

/-- The live runner that has the claim is alone. -/
theorem others_of_covers (sound : s.Sound) (alive : s.alive r = true)
    (mine : (s.pc r).covers = true) : s.Others r := by
  intro w ne lives
  cases covers : (s.pc w).covers with
  | false => rfl
  | true =>
      have same := (sound.covers w lives covers).symm.trans (sound.covers r alive mine)
      exact absurd (Option.some.inj same) ne

/-- A runner renames the marker to its lock. -/
theorem takes (sound : s.Sound) (alive : s.alive r = true) {src : Place} {pc : ClaimAt}
    (there : s.present src = true) (leaves : src.leaves = true) (plain : ∀ t, src ≠ .lock t)
    (parked : src = .postponed → ∀ w todo, s.alive w = true → s.pc w ≠ .sweeping .postponed todo)
    (idle : pc.covers = false) (unwritten : pc.wrote = false)
    (still : ∀ moved todo, pc ≠ .sweeping moved todo) (clears : pc.clears = true → s.Others r) :
    Acts s r (move s.present src (.lock r)) s.side s.tokenTmp pc where
  alive := alive
  moves := .inr ⟨src, .lock r, ⟨there, leaves, fun t isLock => absurd isLock (plain t), nofun,
    fun isParked => .inr (parked isParked)⟩, rfl⟩
  lock := fun _ => (sound.one.moved there).mpr rfl
  tmp := .inl rfl
  wrote := by rw [unwritten]; nofun
  pid := .inl rfl
  covers := by rw [idle]; nofun
  arises := by rw [idle]; nofun
  clears := clears
  sweeps := fun moved todo isSweep => absurd isSweep (still moved todo)

/-- A lock is given up, and `.processing` is there. -/
theorem gives (sound : s.Sound) (alive : s.alive r = true) {t : Runner} {pc : ClaimAt}
    (there : s.present (.lock t) = true) (own : t = r ∨ s.alive t = false)
    (unlocked : pc.locks = false) (covers : pc.covers = true → (s.pc r).covers = true)
    (still : ∀ moved todo, pc ≠ .sweeping moved todo) :
    Acts s r (move s.present (.lock t) .processing) s.side s.tokenTmp pc where
  alive := alive
  moves := .inr ⟨.lock t, .processing, ⟨there, rfl, fun _ isLock => Place.lock.inj isLock ▸ own,
    nofun, nofun⟩, rfl⟩
  lock := by rw [unlocked]; nofun
  tmp := .inl rfl
  wrote := fun wrote => by
    rw [locks_of_wrote wrote] at unlocked
    cases unlocked
  pid := .inl rfl
  covers := fun has => sound.covers r alive (covers has)
  arises := fun has => .inl (covers has)
  clears := fun clears => by
    rw [locks_of_clears clears] at unlocked
    cases unlocked
  sweeps := fun moved todo isSweep => absurd isSweep (still moved todo)

/-- The runner that has the claim moves the marker on, and sweeps. -/
theorem ends (sound : s.Sound) (alive : s.alive r = true) {dst : Place} (todo : List Sidecar)
    (there : s.present .processing = true) (mine : (s.pc r).covers = true)
    (settled : dst.settled = true) :
    Acts s r (move s.present .processing dst) s.side s.tokenTmp (.sweeping dst todo) where
  alive := alive
  moves := .inr ⟨.processing, dst, ⟨there, rfl, nofun,
    fun _ => ⟨sound.others_of_covers alive mine, rfl⟩, nofun⟩, rfl⟩
  lock := nofun
  tmp := .inl rfl
  wrote := nofun
  pid := .inl rfl
  covers := nofun
  arises := nofun
  clears := nofun
  sweeps := fun moved todo' isSweep => by
    obtain ⟨rfl, -⟩ := ClaimAt.sweeping.inj isSweep
    exact .inl ⟨(sound.one.moved there).mpr rfl, settled⟩

/-- A lock is given up while nobody has the claim, and the marker rests. -/
theorem lays (sound : s.Sound) (alive : s.alive r = true) {dst : Place}
    {tokenTmp : Option Runner} (there : s.present (.lock r) = true)
    (clears : (s.pc r).clears = true) :
    Acts s r (move s.present (.lock r) dst) s.side tokenTmp .idle where
  alive := alive
  moves := .inr ⟨.lock r, dst, ⟨there, rfl, fun _ isLock => .inl (Place.lock.inj isLock).symm,
    fun _ => ⟨(sound.clears r alive clears).others r, rfl⟩, nofun⟩, rfl⟩
  lock := nofun
  tmp := .inr (locks_of_clears clears)
  wrote := nofun
  pid := .inl rfl
  covers := nofun
  arises := nofun
  clears := nofun
  sweeps := nofun

/-- No file is changed that says who has the claim. -/
theorem stays (sound : s.Sound) (alive : s.alive r = true) {side : Sidecar → Option Runner}
    {pc : ClaimAt} (pid : side .pid = s.side .pid) (lock : pc.locks = true → (s.pc r).locks = true)
    (unwritten : pc.wrote = false) (covers : pc.covers = true → (s.pc r).covers = true)
    (clears : pc.clears = true → s.Others r)
    (sweeps : ∀ moved todo, pc = .sweeping moved todo → ∃ todo', s.pc r = .sweeping moved todo') :
    Acts s r s.present side s.tokenTmp pc where
  alive := alive
  moves := .inl rfl
  lock := fun locks => sound.locks r alive (lock locks)
  tmp := .inl rfl
  wrote := by rw [unwritten]; nofun
  pid := .inl pid
  covers := fun has => pid.trans (sound.covers r alive (covers has))
  arises := fun has => .inl (covers has)
  clears := clears
  sweeps := fun moved todo isSweep => by
    obtain ⟨todo', was⟩ := sweeps moved todo isSweep
    exact sound.sweeps r moved todo' alive was

/-- Nobody has a claim whose marker rests, or whose sidecars are being removed. -/
theorem calm_of_sweeps (sound : s.Sound) (alive : s.alive r = true)
    (sweeps : (s.pc r).sweeps = true) : s.Calm := by
  cases pc : s.pc r with
  | sweeping moved todo =>
      obtain ⟨there, settled⟩ | ⟨-, there⟩ := sound.sweeps r moved todo alive pc
      · apply sound.rests moved _ there
        cases moved <;> simp_all [Place.settled, Place.resting]
      · exact sound.rests _ rfl there
  | retireSweeping dest todo => exact sound.clears r alive (by rw [pc]; rfl)
  | _ =>
      rw [pc] at sweeps
      cases sweeps

theorem step (sound : s.Sound) (step : ClaimStep s s') (clear : s'.stray = false) : s'.Sound := by
  cases step with
  | claim r alive pc there =>
      have calm := sound.rests .queued rfl there
      exact sound.acts (sound.takes alive there rfl nofun nofun rfl rfl nofun fun _ => calm.others r)
  | wake r alive pc there swept =>
      have calm := sound.rests .postponed rfl there
      exact sound.acts (sound.takes alive there rfl nofun (fun _ => swept) rfl rfl nofun
        fun _ => calm.others r)
  | wakeEarly r alive pc there => cases clear
  | write r src alive pc =>
      have calm := sound.clears r alive (by rw [pc]; rfl)
      have locked : (s.pc r).locks = true := by rw [pc]; rfl
      exact sound.acts ⟨alive, .inl rfl, fun _ => sound.locks r alive locked, .inr locked,
        fun _ => rfl, .inl rfl, nofun, nofun, fun _ => calm.others r, nofun⟩
  | cover r src alive pc =>
      have calm := sound.clears r alive (by rw [pc]; rfl)
      have locked : (s.pc r).locks = true := by rw [pc]; rfl
      have token := sound.token r alive (by rw [pc]; rfl)
      have pid : Function.update s.side .pid s.tokenTmp .pid = some r := by
        rw [Function.update_self, token]
      exact sound.acts ⟨alive, .inl rfl, fun _ => sound.locks r alive locked, .inr locked, nofun,
        .inr (calm.others r), fun _ => pid, fun _ => .inr locked, nofun, nofun⟩
  | abandon r src alive pc there =>
      have clears : (s.pc r).clears = true := by
        obtain pc | pc := pc
        · rw [pc]
          rfl
        · rw [pc]
          rfl
      exact sound.acts (sound.lays alive there clears)
  | publish r src alive pc there =>
      exact sound.acts (sound.gives alive there (.inl rfl) rfl (fun _ => by rw [pc]; rfl) nofun)
  | refuse r alive pc there =>
      exact sound.acts (sound.ends alive sidecars there (by rw [pc]; rfl) rfl)
  | refuseLost r alive pc gone => cases clear
  | duplicate r alive pc there =>
      exact sound.acts (sound.ends alive sidecars there (by rw [pc]; rfl) rfl)
  | duplicateLost r alive pc gone =>
      exact sound.acts (sound.stays alive rfl nofun rfl nofun nofun nofun)
  | dispatch r alive pc =>
      exact sound.acts (sound.stays alive rfl nofun rfl (fun _ => by rw [pc]; rfl) nofun nofun)
  | finish r dest ends alive pc there =>
      have settled : dest.settled = true := by obtain rfl | rfl | rfl := ends <;> rfl
      exact sound.acts (sound.ends alive sidecars there (by rw [pc]; rfl) settled)
  | finishLost r dest alive pc gone => cases clear
  | park r alive pc there =>
      exact sound.acts (sound.ends alive sidecars there (by rw [pc]; rfl) rfl)
  | parkLost r alive pc gone =>
      exact sound.acts (sound.stays alive rfl nofun rfl nofun nofun nofun)
  | sweep r moved x todo alive pc =>
      have calm := sound.calm_of_sweeps alive (by rw [pc]; rfl)
      refine sound.acts ⟨alive, .inl rfl, nofun, .inl rfl, nofun, .inr (calm.others r), nofun, nofun,
        nofun, fun moved' todo' isSweep => ?_⟩
      obtain ⟨rfl, -⟩ := ClaimAt.sweeping.inj isSweep
      exact sound.sweeps r moved _ alive pc
  | swept r moved alive pc =>
      exact sound.acts (sound.stays alive rfl nofun rfl nofun nofun nofun)
  | cancelPark r alive pc there =>
      have calm := sound.rests .postponed rfl there
      exact sound.acts ⟨alive, .inr ⟨.postponed, .cancelled, ⟨there, rfl, nofun,
        fun _ => ⟨calm.others r, rfl⟩, fun _ => .inl rfl⟩, rfl⟩, nofun, .inl rfl, nofun, .inl rfl,
        nofun, nofun, nofun, nofun⟩
  | restore r t alive pc dead there =>
      exact sound.acts (sound.gives alive there (.inr dead) rfl nofun nofun)
  | scan r alive pc there unclaimed =>
      exact sound.acts (sound.stays alive rfl nofun rfl nofun nofun nofun)
  | take r alive pc there =>
      exact sound.acts (sound.takes alive there rfl nofun nofun rfl rfl nofun nofun)
  | takeLost r alive pc gone =>
      exact sound.acts (sound.stays alive rfl nofun rfl nofun nofun nofun)
  | standDown r t alive pc claimed lives there =>
      exact sound.acts (sound.gives alive there (.inl rfl) rfl nofun nofun)
  | stamp r alive pc unclaimed =>
      have locked : (s.pc r).locks = true := by rw [pc]; rfl
      have others : s.Others r := by
        intro w _ lives
        cases covers : (s.pc w).covers with
        | false => rfl
        | true =>
            have dead := unclaimed w (sound.covers w lives covers)
            rw [lives] at dead
            cases dead
      have pid : Function.update s.side .pid (some r) .pid = some r := Function.update_self ..
      exact sound.acts ⟨alive, .inl rfl, fun _ => sound.locks r alive locked, .inl rfl, nofun,
        .inr others, fun _ => pid, fun _ => .inr locked, nofun, nofun⟩
  | republish r alive pc there =>
      exact sound.acts (sound.gives alive there (.inl rfl) rfl (fun _ => by rw [pc]; rfl) nofun)
  | resume r alive pc =>
      exact sound.acts (sound.stays alive rfl nofun rfl (fun _ => by rw [pc]; rfl) nofun nofun)
  | retire r dest alive pc there =>
      exact sound.acts (sound.takes alive there rfl nofun nofun rfl rfl nofun nofun)
  | retireLost r alive pc gone =>
      exact sound.acts (sound.stays alive rfl nofun rfl nofun nofun nofun)
  | retireOwn r dest alive pc own =>
      have others : s.Others r := by
        intro w ne lives
        cases covers : (s.pc w).covers with
        | false => rfl
        | true => exact absurd (own w (sound.covers w lives covers)) ne
      exact sound.acts (sound.stays alive rfl (fun _ => by rw [pc]; rfl) rfl nofun (fun _ => others)
        nofun)
  | retireStandDown r t dest alive pc other foreign there =>
      exact sound.acts (sound.gives alive there (.inl rfl) rfl nofun nofun)
  | retireSweep r dest x todo alive pc =>
      have calm := sound.calm_of_sweeps alive (by rw [pc]; rfl)
      have locked : (s.pc r).locks = true := by rw [pc]; rfl
      exact sound.acts ⟨alive, .inl rfl, fun _ => sound.locks r alive locked, .inl rfl, nofun,
        .inr (calm.others r), nofun, nofun, fun _ => calm.others r, nofun⟩
  | retireMove r dest alive pc there =>
      exact sound.acts (sound.lays alive there (by rw [pc]; rfl))
  | crash r =>
      have lived {w : Runner} (lives : Function.update s.alive r false w = true) :
          s.alive w = true := by
        by_cases isR : w = r
        · rw [isR, Function.update_self] at lives
          cases lives
        · rwa [Function.update_of_ne isR] at lives
      exact ⟨sound.one, fun w lives => sound.locks w (lived lives),
        fun w lives => sound.token w (lived lives), fun w lives => sound.covers w (lived lives),
        fun p rests there w lives => sound.rests p rests there w (lived lives),
        fun w lives clears w' lives' => sound.clears w (lived lives) clears w' (lived lives'),
        fun w moved todo lives => sound.sweeps w moved todo (lived lives)⟩

/-- A sidecar that is written over is there. -/
theorem setSide_ne_none {x y : Sidecar} {t : Runner} (there : s.side y ≠ none) :
    (s.setSide x (some t)).side y ≠ none := by
  simp only [setSide]
  by_cases same : y = x
  · rw [same, Function.update_self]
    nofun
  · rwa [Function.update_of_ne same]

/-- While a live runner has the claim, nobody removes a sidecar of it. -/
theorem keeps (sound : s.Sound) (step : ClaimStep s s') {w : Runner} (lives : s.alive w = true)
    (covers : (s.pc w).covers = true) {x : Sidecar} (there : s.side x ≠ none) :
    s'.side x ≠ none := by
  have busy : ¬ s.Calm := by
    intro calm
    rw [calm w lives] at covers
    cases covers
  cases step with
  | cover r src alive pc => exact absurd (sound.clears r alive (by rw [pc]; rfl)) busy
  | sweep r moved y todo alive pc => exact absurd (sound.calm_of_sweeps alive (by rw [pc]; rfl)) busy
  | retireSweep r dest y todo alive pc =>
      exact absurd (sound.calm_of_sweeps alive (by rw [pc]; rfl)) busy
  | dispatch => exact setSide_ne_none there
  | stamp => exact setSide_ne_none there
  | resume => exact setSide_ne_none there
  | _ => exact there

end Sound

/-- A state the folder comes to, whichever runners take whichever steps, and die between any
two. -/
abbrev Reached (s : ClaimFolder) : Prop := Reaches (· = fresh) ClaimStep s

theorem Reached.start : fresh.Reached := Reaches.start rfl

theorem Reached.next (run : s.Reached) (step : ClaimStep s s') : s'.Reached :=
  Reaches.step run step

/-- A step leaves the file under its name, or renames it. -/
theorem present_of_step (step : ClaimStep s s') :
    s'.present = s.present ∨
      ∃ src dst, s.present src = true ∧ s'.present = move s.present src dst := by
  cases step
  case claim there => exact .inr ⟨_, _, there, rfl⟩
  case wake there _ => exact .inr ⟨_, _, there, rfl⟩
  case wakeEarly there => exact .inr ⟨_, _, there, rfl⟩
  case abandon there => exact .inr ⟨_, _, there, rfl⟩
  case publish there => exact .inr ⟨_, _, there, rfl⟩
  case refuse there => exact .inr ⟨_, _, there, rfl⟩
  case duplicate there => exact .inr ⟨_, _, there, rfl⟩
  case finish there => exact .inr ⟨_, _, there, rfl⟩
  case park there => exact .inr ⟨_, _, there, rfl⟩
  case cancelPark there => exact .inr ⟨_, _, there, rfl⟩
  case restore there => exact .inr ⟨_, _, there, rfl⟩
  case take there => exact .inr ⟨_, _, there, rfl⟩
  case standDown there => exact .inr ⟨_, _, there, rfl⟩
  case republish there => exact .inr ⟨_, _, there, rfl⟩
  case retire there => exact .inr ⟨_, _, there, rfl⟩
  case retireStandDown there => exact .inr ⟨_, _, there, rfl⟩
  case retireMove there => exact .inr ⟨_, _, there, rfl⟩
  all_goals exact .inl rfl

/-- The file is never lost, and is never there twice. -/
theorem Reached.oneName (run : s.Reached) : OneName s.present := by
  apply run.invariant
  · rintro s rfl
    exact ⟨.queued, rfl⟩
  · intro s s' one step
    obtain same | ⟨src, dst, there, moved⟩ := present_of_step step
    · rw [same]
      exact one
    · rw [moved]
      exact ⟨dst, one.move_eq there⟩

theorem stray_of_step (step : ClaimStep s s') (clear : s'.stray = false) : s.stray = false := by
  cases step
  case wakeEarly => cases clear
  case refuseLost => cases clear
  case finishLost => cases clear
  all_goals exact clear

theorem Reached.sound (run : s.Reached) : s.stray = false → s.Sound := by
  induction run with
  | start h =>
      intro _
      subst h
      exact ⟨⟨.queued, rfl⟩, nofun, nofun, nofun, fun _ _ _ _ _ => rfl, nofun, nofun⟩
  | step before h ih =>
      intro clear
      exact (ih (stray_of_step h clear)).step h clear

/-- In every run the file has one name. While no job was woken under the sweep of the runner
that parked it, and no run ended under another runner's lock: one live runner has the claim at
most, its token is on it whenever others can see it, and no step of another removes a sidecar
of it. -/
theorem one_live_runner (run : s.Reached) :
    (∃ p, ∀ q, s.present q = true ↔ q = p) ∧
      (s.stray = false →
        (∀ r w, s.alive r = true → s.alive w = true → (s.pc r).covers = true →
          (s.pc w).covers = true → r = w) ∧
        (∀ r w, s.alive r = true → s.alive w = true → s.pc r = .running → s.pc w = .running →
          r = w) ∧
        (∀ w, s.present .processing = true → s.alive w = true → (s.pc w).covers = true →
          s.side .pid = some w) ∧
        ∀ s', ClaimStep s s' → ∀ w, s.alive w = true → (s.pc w).covers = true →
          ∀ x, s.side x ≠ none → s'.side x ≠ none) := by
  constructor
  · obtain ⟨p, isName⟩ := run.oneName
    refine ⟨p, fun q => ?_⟩
    rw [isName]
    exact decide_eq_true_iff
  · intro clear
    have sound := Reached.sound run clear
    have one : ∀ r w, s.alive r = true → s.alive w = true → (s.pc r).covers = true →
        (s.pc w).covers = true → r = w := by
      intro r w alive lives mine theirs
      have same := (sound.covers r alive mine).symm.trans (sound.covers w lives theirs)
      exact Option.some.inj same
    refine ⟨one, fun r w alive lives pc pc' => ?_, fun w _ => sound.covers w, ?_⟩
    · exact one r w alive lives (by rw [pc]; rfl) (by rw [pc']; rfl)
    · exact fun s' step w lives covers x there => sound.keeps step lives covers there

/-- A runner claims the job, runs it and dies, and another that has seen it dead takes the claim
over and runs it: the claim is the second's, and the first is no live runner of it. -/
theorem one_live_runner_claims :
    ∃ s : ClaimFolder, s.pc 0 = .running ∧ s.pc 1 = .running ∧ s.alive 1 = true ∧
      s.stray = false ∧ s.side .pid = some 1 ∧ s.alive 0 = false := by
  have claimed := Reached.start.next (.claim 0 rfl rfl rfl)
  have covered := (claimed.next (.write 0 .queue rfl rfl)).next (.cover 0 .queue rfl rfl)
  have held := covered.next (.publish 0 .queue rfl rfl rfl)
  have dead := (held.next (.dispatch 0 rfl rfl)).next (.crash 0)
  have scanned := dead.next (.scan 1 rfl rfl rfl (by rintro t ⟨⟩; rfl))
  have taken := scanned.next (.take 1 rfl rfl rfl)
  have stamped := (taken.next (.stamp 1 rfl rfl (by rintro t ⟨⟩; rfl))).next
    (.republish 1 rfl rfl rfl)
  have run := (stamped.next (.resume 1 rfl rfl)).next (.dispatch 1 rfl rfl)
  have alone := (one_live_runner run).2 rfl
  exact ⟨_, rfl, rfl, rfl, rfl, alone.2.2.1 1 rfl rfl rfl, rfl⟩

/-- A claim that is being made is under a seventh name. And a job that is woken while the runner
that parked it sweeps loses its token to the sweep: a third runner takes it for a dead one's,
and two live runners run it. -/
theorem two_live_runners :
    (∃ s : ClaimFolder, s.Reached ∧ s.stray = false ∧ ∀ p, s.present p = true ↔ p = .lock 0) ∧
      ∃ s : ClaimFolder, s.Reached ∧ s.alive 1 = true ∧ s.alive 2 = true ∧ s.pc 1 = .running ∧
        s.pc 2 = .running := by
  have claimed := Reached.start.next (.claim 0 rfl rfl rfl)
  constructor
  · refine ⟨_, claimed, rfl, fun p => ?_⟩
    exact (Reached.oneName .start).moved rfl
  · have covered := (claimed.next (.write 0 .queue rfl rfl)).next (.cover 0 .queue rfl rfl)
    have run := (covered.next (.publish 0 .queue rfl rfl rfl)).next (.dispatch 0 rfl rfl)
    have woken := (run.next (.park 0 rfl rfl rfl)).next (.wakeEarly 1 rfl rfl rfl)
    have again := (woken.next (.write 1 .park rfl rfl)).next (.cover 1 .park rfl rfl)
    have held := (again.next (.publish 1 .park rfl rfl rfl)).next (.dispatch 1 rfl rfl)
    have bare := held.next (.sweep 0 .postponed .pid [.identity, .skips] rfl rfl)
    have taken := (bare.next (.scan 2 rfl rfl rfl nofun)).next (.take 2 rfl rfl rfl)
    have stamped := (taken.next (.stamp 2 rfl rfl nofun)).next (.republish 2 rfl rfl rfl)
    have both := (stamped.next (.resume 2 rfl rfl)).next (.dispatch 2 rfl rfl)
    exact ⟨_, both, rfl, rfl, rfl, rfl⟩

end ClaimFolder

end Clearotron
