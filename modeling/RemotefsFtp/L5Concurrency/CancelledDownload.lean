import RemotefsFtp.L5Concurrency.System

/-!
# A cancelled download of the Tokio client

What the drop of a future does that owns a download before EOF
(`src/client/tokio/stream.rs:178-206, 246-272`). The drop of the stream marks
the connection only while the stream still has its transfer; `finish_inner`
moves the transfer into the future it awaits.

Results:
* **`cancelled_download`**: the connection is marked before the flag is
  cleared exactly when the stream still has its transfer, or it was marked.
* **`cancelled_drain`**: a run in which neither holds.
-/
namespace RemotefsFtp.L5

open L2 L3
open Core (Prog)

variable {T : Type} [DecidableEq T] {s : ReadStream} {h : Conn} {e : Eff} {g : List Eff}

/-- The state in which the drop glue clears `transfer_active`. -/
def clearing (sh : Shared T) (t : T) : List Eff → Option (Shared T)
  | [] => none
  | .guardDrop :: _ => some sh
  | e :: es => (perform sh t e {}).bind fun r => clearing r.1 t es

/-- The drop leaves `connection_usable` false before it clears
`transfer_active`. -/
def MarksFirst (sh : Shared T) (t : T) (g : List Eff) : Prop :=
  ∃ sh', clearing sh t g = some sh' ∧ sh'.active = sh.active ∧ sh'.usable = false

/-- The stream still has its transfer. -/
theorem marksFirst_dropReadStream (hs : s.inner = some h) (he : s.atEof = false) (sh : Shared T)
    (t : T) : MarksFirst sh t (dropReadStream s) := by
  unfold dropReadStream
  rw [hs, he]
  exact ⟨_, rfl, rfl, rfl⟩

/-- The transfer was moved into the future. -/
theorem marksFirst_moved (hs : s.inner = none) (sh : Shared T) (t : T) :
    MarksFirst sh t ([.dropTransfer h] ++ dropReadStream s) ↔ sh.usable = false := by
  unfold dropReadStream
  rw [hs]
  constructor
  · rintro ⟨sh', hc, -, hu⟩
    cases hc
    exact hu
  · exact fun hu => ⟨_, rfl, rfl, hu⟩

/-! ## Suspension points -/

variable (X : Ext)

theorem waits_finishRead (hw : (TokioReadStream.finishRead X h false).Waits e g) :
    (e = .copyAll h ∨ e = .finish h) ∧ g = [.dropTransfer h] := by
  obtain ⟨rfl, hg⟩ | ⟨r, ⟨rfl, hg⟩ | ⟨r', hw⟩⟩ := hw
  · cases hg
    exact ⟨.inl rfl, rfl⟩
  · cases hg
    exact ⟨.inr rfl, rfl⟩
  · exact absurd hw Prog.not_waits_ret

theorem not_waits_invalidateOnErr {r : RemoteResult Unit} :
    ¬ (FtpReadStream.invalidateOnErr r).Waits e g := by
  unfold FtpReadStream.invalidateOnErr
  split
  · exact Prog.not_waits_step
  · exact Prog.not_waits_ret

theorem waits_finishInner (hs : s.inner = some h) (he : s.atEof = false)
    (hw : (TokioReadStream.finishInner X s).Waits e g) :
    (e = .copyAll h ∨ e = .finish h) ∧
      ∃ s' : ReadStream, s'.inner = none ∧ g = [.dropTransfer h] ++ dropReadStream s' := by
  unfold TokioReadStream.finishInner at hw
  rw [hs] at hw
  rcases Prog.waits_bind.mp hw with hw | ⟨r, -, hw⟩
  · obtain ⟨g₀, hread, rfl⟩ := Prog.waits_holding.mp hw
    rw [he] at hread
    obtain ⟨hpoint, rfl⟩ := waits_finishRead X hread
    exact ⟨hpoint, _, rfl, rfl⟩
  · rcases Prog.waits_bind.mp hw with hw | ⟨_, -, hw⟩
    · exact absurd hw not_waits_invalidateOnErr
    · exact absurd hw Prog.not_waits_ret

/-- Where a future waits that owns the download `s`. -/
inductive Point (s : ReadStream) (h : Conn) (e : Eff) (g : List Eff) : Prop
  /-- Before its first poll, or in `skip_prefix`. -/
  | held (hp : e = .poll ∨ ∃ n, e = .copyTake h n) (hg : g = dropReadStream s)
  /-- Draining, or awaiting the completion reply. -/
  | moved (hp : e = .copyAll h ∨ e = .finish h)
      (hg : ∃ s' : ReadStream, s'.inner = none ∧ g = [.dropTransfer h] ++ dropReadStream s')

theorem waits_finish (hs : s.inner = some h) (he : s.atEof = false)
    (hw : (TokioReadStream.finish X s).Waits e g) : Point s h e g := by
  rcases Prog.waits_bind.mp hw with hw | ⟨_, -, hw⟩
  · obtain ⟨g₀, hpoll, rfl⟩ := Prog.waits_holding.mp hw
    obtain ⟨rfl, rfl⟩ := Prog.waits_await.mp hpoll
    exact .held (.inl rfl) rfl
  · rcases Prog.waits_bind.mp hw with hw | ⟨r, -, hw⟩
    · obtain ⟨hp, hg⟩ := waits_finishInner X hs he hw
      exact .moved hp hg
    · rcases Prog.waits_bind.mp hw with hw | ⟨_, -, hw⟩
      · exact absurd hw Prog.not_waits_glue
      · exact absurd hw Prog.not_waits_ret

theorem waits_skipPrefix (hs : s.inner = some h) {n : Nat}
    (hw : (TokioReadStream.skipPrefix X s n).Waits e g) : e = .copyTake h n ∧ g = dropReadStream s := by
  unfold TokioReadStream.skipPrefix at hw
  rw [hs] at hw
  rcases Prog.waits_bind.mp hw with hw | ⟨r, -, hw⟩
  · obtain ⟨g₀, hcopy, rfl⟩ := Prog.waits_holding.mp hw
    obtain ⟨rfl, rfl⟩ := Prog.waits_await.mp hcopy
    exact ⟨rfl, rfl⟩
  · cases r with
    | error err => exact absurd hw Prog.not_waits_ret
    | ok skipped =>
      dsimp only at hw
      split at hw <;> exact absurd hw Prog.not_waits_ret

/-- A failed skip leaves the stream as it was. -/
theorem returns_skipPrefix (hs : s.inner = some h) {n : Nat} {skip : RemoteError} {s' : ReadStream}
    (hr : (TokioReadStream.skipPrefix X s n).Returns (.error skip, s')) : s' = s := by
  unfold TokioReadStream.skipPrefix at hr
  rw [hs] at hr
  obtain ⟨r, -, hr⟩ := Prog.returns_bind.mp hr
  cases r with
  | error err => exact (Prod.mk.inj hr).2.symm
  | ok skipped =>
    dsimp only at hr
    split at hr <;> cases hr

theorem waits_skipTo (hs : s.inner = some h) (he : s.atEof = false) {offset : Nat} {resumed : Bool}
    (hw : (TokioFtpFs.skipTo X s offset resumed).Waits e g) : Point s h e g := by
  unfold TokioFtpFs.skipTo at hw
  split at hw
  · rcases Prog.waits_bind.mp hw with hskip | ⟨⟨r, s'⟩, hr, hrest⟩
    · obtain ⟨rfl, rfl⟩ := waits_skipPrefix X hs hskip
      exact .held (.inr ⟨_, rfl⟩) rfl
    · cases r with
      | ok => exact absurd hrest Prog.not_waits_ret
      | error skip =>
        obtain rfl := returns_skipPrefix X hs hr
        rcases Prog.waits_bind.mp hrest with hclose | ⟨_, -, hend⟩
        · rcases Prog.waits_bind.mp hclose with hinner | ⟨_, -, hdrop⟩
          · obtain ⟨hp, hg⟩ := waits_finishInner X hs he hinner
            exact .moved hp hg
          · rcases Prog.waits_bind.mp hdrop with hglue | ⟨_, -, hend⟩
            · exact absurd hglue Prog.not_waits_glue
            · split at hend <;> exact absurd hend Prog.not_waits_ret
        · exact absurd hend Prog.not_waits_ret
  · exact absurd hw Prog.not_waits_ret

theorem Point.marksFirst_iff (hp : Point s h e g) (hs : s.inner = some h) (he : s.atEof = false)
    (sh : Shared T) (t : T) :
    MarksFirst sh t g ↔ sh.usable = false ∨ e = .poll ∨ ∃ n, e = .copyTake h n := by
  cases hp with
  | held hp hg =>
    subst hg
    exact ⟨fun _ => .inr hp, fun _ => marksFirst_dropReadStream hs he sh t⟩
  | moved hp hg =>
    obtain ⟨s', hs', rfl⟩ := hg
    rw [marksFirst_moved hs']
    refine ⟨.inl, fun hc => ?_⟩
    rcases hc with hu | rfl | ⟨n, rfl⟩
    · exact hu
    · rcases hp with hp | hp <;> cases hp
    · rcases hp with hp | hp <;> cases hp

/-- **Cancelled download cleanup**: dropping the future of `finish`, or of
`open` while it skips or cleans up, before EOF marks the connection before the
flag is cleared exactly when the connection was marked before, or the stream
still has its transfer: before the first poll, or in `skip_prefix`. -/
theorem cancelled_download (hs : s.inner = some h) (he : s.atEof = false) (sh : Shared T) (t : T)
    (hw : (TokioReadStream.finish X s).Waits e g ∨
      ∃ offset resumed, (TokioFtpFs.skipTo X s offset resumed).Waits e g) :
    MarksFirst sh t g ↔ sh.usable = false ∨ e = .poll ∨ ∃ n, e = .copyTake h n := by
  have hp : Point s h e g := by
    rcases hw with hw | ⟨offset, resumed, hw⟩
    · exact waits_finish X hs he hw
    · exact waits_skipTo X hs he hw
  exact hp.marksFirst_iff hs he sh t

/-- A `finish` dropped before its first poll. -/
theorem cancelled_download_unpolled :
    MarksFirst (.start (some 0) : Shared Bool) false (dropReadStream (FtpReadStream.new 0 none)) :=
  (cancelled_download plainExt (s := FtpReadStream.new 0 none) (h := 0) rfl rfl _ false
    (.inl (.inl ⟨rfl, rfl⟩))).mpr (.inr (.inl rfl))

/-- A download is opened and its `finish` dropped while it drains. -/
def drainRun : List (Label Bool) :=
  [.launch false (.op (.open' ['/', 'f'] {}))] ++ steps false 11 {} ++
    [.retire false, .launch false (.stream 0 .finish), .step false {}, .drop false, .step false {}]

/-- **The defect**: the flag is about to be cleared, and the connection, with
its completion reply outstanding, still counts as usable. -/
theorem cancelled_drain : ∃ s, play (tokioImpl plainExt) (fun _ _ => true) drainRun = some s ∧
    s.At false .guardDrop ∧ s.sh.active = true ∧ s.sh.usable = true := by
  obtain ⟨s, hs⟩ := Option.isSome_iff_exists.mp
    (show (play (tokioImpl plainExt) (fun _ _ => true) drainRun).isSome = true by decide)
  refine ⟨s, hs, ?_⟩
  cases hs
  exact ⟨⟨_, _, rfl⟩, rfl, rfl⟩

end RemotefsFtp.L5
