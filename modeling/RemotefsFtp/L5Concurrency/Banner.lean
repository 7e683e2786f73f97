import RemotefsFtp.Core.Eval
import RemotefsFtp.L5Concurrency.Bookkeeping

/-!
# The banner of the connection

`FtpFs` reads the banner through its slot (`src/client/sync.rs:329-333`),
`TokioFtpFs` from a cache that `connect` and `disconnect` store to
(`src/client/tokio.rs:368-373, 613-730`).

Results:
* **`banner_follows`**: `FtpFs` tells the banner of its connection exactly while
  no listing has the stream, or the server sent none; `TokioFtpFs` does as
  long as every reconnect that discards a connection succeeds.
* **`banner_lost`**: a run of each client in which it does not.
-/
namespace RemotefsFtp.L5

open L1 (Str)
open L2 L3
open Core (LTS Threads Machine Prog)
open Core.Threads (State Lbl Typed)

variable {T : Type} [DecidableEq T] {α : Type} {sh : Shared T} {t : T}

/-- The steps of one thread while the others wait. -/
def solo (t : T) : Machine ftp (Shared T) where
  step sh e := (perform sh t e {}).map fun x => (x.2, x.1)

/-- What `p` returns to `t` if called now; `none`: it waits. -/
def asked (p : Io α) (t : T) (sh : Shared T) : Option α := (p.eval (solo t) sh).map Prod.fst

/-- `welcome_message` tells the banner of the control connection the client
holds, wherever the stream is. -/
def TellsBanner (p : Io (Option Str)) (t : T) (sh : Shared T) : Prop :=
  ∀ w, asked p t sh = some w →
    ∀ b, w = some b ↔ ∃ h ∈ sh.slot.toList ++ sh.held, sh.banner h = some b

theorem asked_step {e : Eff} {f : e.Ret → Io α} :
    asked (step e >>= f) t sh = (perform sh t e {}).bind fun x => asked (f x.2) t x.1 := by
  show (((perform sh t e {}).map fun x => (x.2, x.1)).bind fun (r, w) => (f r).eval (solo t) w).map Prod.fst = _
  cases perform sh t e {} <;> rfl

theorem asked_unlock (w : α) (hl : sh.lock = some t) :
    asked (do FtpFs.unlock; pure w) t sh = some w := by
  rw [FtpFs.unlock, asked_step]
  simp only [perform, hl, if_true]
  rfl

theorem asked_sync (sh : Shared T) (t : T) :
    asked FtpFs.welcomeMessage t sh = if sh.lock = none then some (sh.slot.bind sh.banner) else none := by
  rw [FtpFs.welcomeMessage, FtpFs.lock, asked_step]
  by_cases hl : sh.lock = none
  · simp only [perform, hl, if_true, Option.bind_some]
    rw [asked_step]
    simp only [perform, Option.bind_some]
    cases hs : sh.slot with
    | none => exact asked_unlock none rfl
    | some h =>
      dsimp only
      rw [asked_step]
      exact asked_unlock (sh.banner h) rfl
  · simp only [perform, hl, if_false, Option.bind_none]

theorem asked_tokio (sh : Shared T) (t : T) :
    asked TokioFtpFs.welcomeMessage t sh = some sh.welcome := rfl

/-! ## Where the stream is -/

omit [DecidableEq T] in
/-- A stream that is out of its slot is in the hands of its user. -/
theorem Inv.held_nil_or {v : Variant} {ms : T → Mode} {ct : Token T} (hi : Inv v sh ms ct) :
    sh.held = [] ∨ ∃ u h, (ms u).spot = .hand h ∧ sh.slot = none ∧ sh.held = [h] := by
  cases hct : ct with
  | nobody => exact .inl (hi.free hct).held
  | pooled =>
    obtain ⟨_, _, hp⟩ := hi.pooled hct
    exact .inl hp.spot.2
  | thread u =>
    have hspot := (hi.holds u hct).spot
    cases hs : (ms u).spot with
    | slot h => rw [hs] at hspot; exact .inl hspot.2
    | hand h => rw [hs] at hspot; exact .inr ⟨u, h, hs, hspot⟩
    | nowhere => rw [hs] at hspot; exact .inl hspot.2
    | unmoved => rw [hs] at hspot; exact .inl hspot

theorem exclusive_or_unique {m : Mode} {h : Conn} (hs : m.spot = .hand h) :
    m.exclusive = true ∨ m.isUnique = true := by
  cases m with
  | sec p | busy p | bld p | data p | fini p =>
    cases p with
    | locked => cases hs
    | exclusive => exact .inl rfl
    | unique => exact .inr rfl
  | taken | takenA | exNew | exLk => exact .inl rfl
  | uh => exact .inr rfl
  | _ => cases hs

omit [DecidableEq T] in
/-- The Tokio client keeps its stream in the slot. -/
theorem Booked.held_nil {b : Bool} {ms : T → Mode × Mirror} (hJ : Booked b sh ms)
    (hw : sh.writer = none) : sh.held = [] := by
  obtain ⟨ct, hi⟩ := hJ.inv
  rcases hi.held_nil_or with hh | ⟨u, h, hs, -, -⟩
  · exact hh
  · rcases exclusive_or_unique hs with he | hu
    · have := hJ.inclusive u
      rw [show (ms u).1.exclusive = true from he] at this
      cases this
    · have : sh.writer = some u := (hi.borrowed.writer u).mp hu
      rw [hw] at this
      cases this

/-! ## The banner -/

/-- **The banner follows the connection**: of `FtpFs` exactly while no listing
has a stream out of its slot whose server sent a banner; of `TokioFtpFs` in
every run in which a reconnect that discards a connection with a banner does
not fail and is not cancelled. -/
theorem banner_follows (X : Ext) {slot : Option Conn} {s : Config T} (hw : s.sh.writer = none) (t : T) :
    ((runs (syncImpl X) slot Blocking).Reachable s → s.sh.lock = none →
      (TellsBanner FtpFs.welcomeMessage t s.sh ↔ ∀ h ∈ s.sh.held, s.sh.banner h = none)) ∧
    ((runs (tokioImpl X) slot Renews).Reachable s → TellsBanner TokioFtpFs.welcomeMessage t s.sh) := by
  refine ⟨fun hr hl => ?_, fun hr => ?_⟩
  · obtain ⟨ms, ⟨ct, hi⟩, -⟩ := reachable_inv (sync_keeping X) blocking_permits hr
    rw [TellsBanner, asked_sync, if_pos hl]
    rcases hi.held_nil_or with hh | ⟨u, h, -, hs, hh⟩
    · refine ⟨fun _ h hmem => ?_, fun _ w hask b => ?_⟩
      · rw [hh] at hmem
        cases hmem
      cases hask
      rw [hh]
      cases hs : s.sh.slot <;> simp
    · rw [hs, hh]
      constructor
      · intro htells h' hmem
        obtain rfl := List.mem_singleton.mp hmem
        cases hb : s.sh.banner h' with
        | none => rfl
        | some b => exact absurd ((htells none rfl b).mpr ⟨h', by simp, hb⟩) (by simp)
      · intro hnone w hask b
        cases hask
        have := hnone h (by simp)
        simp [this]
  · obtain ⟨ms, hJ, -⟩ := reachable_booked (b := true) X (fun _ _ _ h => h) hr
    intro w hask b
    rw [asked_tokio] at hask
    cases hask
    have hall : ∀ u, (Prod.snd ∘ ms) u = .out := fun u => by
      by_contra hne
      have := hJ.mirrors.writer u hne
      rw [hw] at this
      cases this
    rw [(hJ.mirrors.rest hall).welcome rfl, hJ.held_nil hw]
    cases hs : s.sh.slot <;> simp

/-- Two threads on a client that is not connected. -/
def playNew (I : Impl) (ok : Config Bool → Label Bool → Bool) (ls : List (Label Bool)) :
    Option (Config Bool) :=
  LTS.exec (system Bool I).next ok ⟨.start none, fun _ => none⟩ ls

theorem reachable_of_playNew {I : Impl} {ok : Config Bool → Label Bool → Bool}
    {P : Config Bool → Label Bool → Prop} (hP : ∀ s l, ok s l = true → P s l)
    {ls : List (Label Bool)} {s : Config Bool} (h : playNew I ok ls = some s) :
    (runs I none P).Reachable s := by
  have hstep : ∀ s l s', ok s l = true → (system Bool I).next s l = some s' →
      (runs I none P).step s l s' := fun s l _ hok hs => ⟨hs, hP s l hok⟩
  exact ⟨_, ls, ⟨⟨false, rfl⟩, fun _ => rfl⟩, LTS.run_of_exec hstep h⟩

def welcoming (banner : String) : Oracle := { connect := .ok (some banner.toList) }

def losing : Oracle := { reply := .error (.connectionError (.other 0)) }

def someHost : Options := { hostname := "h".toList, port := 21 }

/-- A blocking client is connected and then has its stream out for a listing. -/
def listedRun : List (Label Bool) :=
  [.launch false (.op (.connect someHost))] ++ steps false 15 (welcoming "one") ++
    [.retire false, .launch false (.op (.listDir "/".toList))] ++ steps false 7 {}

/-- A Tokio client is connected, loses the connection and reconnects in `n`
steps answered by `o`. -/
def reconnectRun (n : Nat) (o : Oracle) : List (Label Bool) :=
  [.launch false (.op (.connect someHost))] ++ steps false 14 (welcoming "one") ++
    [.retire false, .launch false (.op (.exec "NOOP".toList))] ++ steps false 9 losing ++
    [.retire false, .launch false (.op (.connect someHost))] ++ steps false n o ++ [.retire false]

/-- Nothing fails and nobody is dropped while only the cache has a banner. -/
def renewing (s : Config Bool) : Label Bool → Bool
  | .step _ c => s.sh.slot.isSome || s.sh.welcome.isNone ||
      (!Mode.isErr c.connect && c.tls && !Mode.isErr c.reply)
  | .drop _ => false
  | _ => true

theorem renewing_of (s : Config Bool) (l : Label Bool) (h : renewing s l = true) : Renews s l := by
  cases l with
  | drop t => cases h
  | step t c =>
    rintro ⟨-, hslot, hw⟩ e - href
    have hsome : s.sh.welcome.isNone = false := by
      cases hwel : s.sh.welcome with
      | none => exact absurd hwel hw
      | some w => rfl
    simp only [renewing, hslot, hsome, Option.isSome_none, Bool.false_or, Bool.and_eq_true,
      Bool.not_eq_true'] at h
    cases e with
    | connect host port => exact absurd h.1.1 (by rw [show _ = true from href]; simp)
    | setupTlsConnector => exact absurd h.1.2 (by rw [show _ = false from href]; simp)
    | recv h' c' => exact absurd h.2 (by rw [show _ = true from href]; simp)
    | _ => exact href.elim
  | _ => trivial

theorem exists_of_any {P : Config Bool → Prop} [DecidablePred P] {o : Option (Config Bool)}
    (h : (o.any fun s => decide (P s)) = true) : ∃ s, o = some s ∧ P s := by
  cases o with
  | none => cases h
  | some s => exact ⟨s, rfl, of_decide_eq_true h⟩

theorem connected_state : ∃ s, playNew (syncImpl plainExt) blocking (listedRun.take 17) = some s ∧
    s.sh.writer = none ∧ s.sh.lock = none ∧ s.sh.slot.bind s.sh.banner = some "one".toList :=
  exists_of_any (by decide +kernel)

theorem reconnected_state : ∃ s,
    playNew (tokioImpl plainExt) renewing (reconnectRun 17 (welcoming "two")) = some s ∧
      s.sh.writer = none ∧ s.sh.welcome = some "two".toList :=
  exists_of_any (by decide +kernel)

theorem listed_state : ∃ s, playNew (syncImpl plainExt) blocking listedRun = some s ∧
    s.sh.writer = none ∧ s.sh.lock = none ∧ s.sh.slot = none ∧ s.sh.held = [0] ∧
      s.sh.banner 0 = some "one".toList :=
  exists_of_any (by decide +kernel)

theorem refused_state : ∃ s, playNew (tokioImpl plainExt) (fun _ _ => true)
      (reconnectRun 8 { connect := .error .badResponse }) = some s ∧
    s.sh.writer = none ∧ s.sh.slot.toList ++ s.sh.held = [] ∧ s.sh.welcome = some "one".toList :=
  exists_of_any (by decide +kernel)

theorem banner_follows_connected :
    (∃ s, playNew (syncImpl plainExt) blocking (listedRun.take 17) = some s ∧
      (TellsBanner FtpFs.welcomeMessage true s.sh ↔ ∀ h ∈ s.sh.held, s.sh.banner h = none) ∧
      asked FtpFs.welcomeMessage true s.sh = some (some "one".toList)) ∧
    ∃ s, playNew (tokioImpl plainExt) renewing (reconnectRun 17 (welcoming "two")) = some s ∧
      TellsBanner TokioFtpFs.welcomeMessage true s.sh ∧
      asked TokioFtpFs.welcomeMessage true s.sh = some (some "two".toList) := by
  obtain ⟨s, hs, hw, hl, hb⟩ := connected_state
  obtain ⟨s', hs', hw', hb'⟩ := reconnected_state
  refine ⟨⟨s, hs, (banner_follows plainExt hw true).1 (reachable_of_playNew blocking_of hs) hl, ?_⟩,
    s', hs', (banner_follows plainExt hw' true).2 (reachable_of_playNew renewing_of hs'), ?_⟩
  · rw [asked_sync, if_pos hl, hb]
  · rw [asked_tokio, hb']

/-- **The banner is lost** while a listing has the stream, and **outlives its
connection** where a reconnect fails. -/
theorem banner_lost :
    (∃ s, playNew (syncImpl plainExt) blocking listedRun = some s ∧ s.sh.writer = none ∧
      asked FtpFs.welcomeMessage true s.sh = some none ∧ ¬ TellsBanner FtpFs.welcomeMessage true s.sh) ∧
    ∃ s, playNew (tokioImpl plainExt) (fun _ _ => true)
        (reconnectRun 8 { connect := .error .badResponse }) = some s ∧
      s.sh.writer = none ∧ s.sh.slot.toList ++ s.sh.held = [] ∧
      ¬ TellsBanner TokioFtpFs.welcomeMessage true s.sh := by
  obtain ⟨s, hs, hw, hl, hslot, hheld, hb⟩ := listed_state
  obtain ⟨s', hs', hw', hnone, hb'⟩ := refused_state
  have hask : asked FtpFs.welcomeMessage true s.sh = some none := by
    rw [asked_sync, if_pos hl, hslot]
    rfl
  refine ⟨⟨s, hs, hw, hask, fun htells => ?_⟩, s', hs', hw', hnone, fun htells => ?_⟩
  · have := (htells none hask "one".toList).mpr ⟨0, by simp [hslot, hheld], hb⟩
    cases this
  · obtain ⟨h, hmem, -⟩ := (htells (some "one".toList) (by rw [asked_tokio, hb']) "one".toList).mp rfl
    rw [hnone] at hmem
    cases hmem

end RemotefsFtp.L5
