import RemotefsFtp.L3Client.Commands

/-!
# What `connect`, `disconnect` and owned streams send

The managed operations are bounded by `sync_plain` and `tokio_plain`. The rest
of either client sends little: `connect` the commands that set a connection up,
`disconnect` a `QUIT`, and an owned stream nothing.

Results:
* `connect_sends`, `disconnect_sends`, `stream_sends`, of either client.
-/
namespace RemotefsFtp.L3

open L1 (Str Path)
open L2
open Core (Prog)

variable {α β : Type}

/-- A step that sends the commands `Cs`; `new`: it may open a connection. -/
def Sends (new : Bool) (Cs : Command → Prop) : Eff → Prop
  | .send _ c | .recv _ c => Cs c
  | .connect _ _ => new = true
  | _ => True

/-- The commands that set a connection up. -/
def setupCommands (o : Options) : List Command :=
  (if o.secure then [.intoSecure] else []) ++ [.login o.username (o.password.getD []), .transferTypeBinary]

section
variable {new : Bool} {Cs : Command → Prop}

/-- A step of a managed operation opens no connection. -/
theorem sends_of_plain {mv xf look : Bool} {e : Eff} (he : Plain mv xf look Cs e) : Sends new Cs e := by
  cases e with
  | send h c | recv h c => exact he
  | connect host port => exact he.elim
  | _ => trivial

theorem does_of_plain (mv xf look : Bool) {p : Io α} (hp : Does (Plain mv xf look Cs) p) : Does (Sends new Cs) p :=
  Prog.always_mono hp fun _ => sends_of_plain

/-- Setting up a connection: the stream builder, TLS, the login and the transfer type. A
failure ends it early. -/
theorem does_setup (o : Options) (h : Conn) {call : Conn → Command → Io (FtpResult Response)}
    (hcall : ∀ c ∈ setupCommands o, Does (Sends new Cs) (call h c)) : Does (Sends new Cs) (setup call o h) := by
  refine does_seq ?_ fun _ => does_step trivial fun _ => does_seq ?_ fun r => ?_
  · unfold installBuilder
    split
    · exact Prog.always_step trivial
    · exact does_pure _
  · unfold secure
    split
    · rename_i hs
      refine does_step trivial fun tls => ?_
      split
      · refine does_seq (hcall _ (by simp [setupCommands, hs])) fun r => ?_
        split <;> exact does_pure _
      · exact does_pure _
    · exact does_pure _
  · split
    · exact does_pure _
    · refine does_seq (hcall _ (by simp [setupCommands])) fun r => ?_
      split
      · exact does_pure _
      · refine does_seq (hcall _ (by simp [setupCommands])) fun r => ?_
        split <;> exact does_pure _

end

/-! ## The blocking client -/

namespace FtpFs

variable {new : Bool} {Cs : Command → Prop}

theorem call_sends (h : Conn) {c : Command} (hc : Cs c) : Does (Sends new Cs) (call h c) :=
  does_of_plain true true true (does_call h hc)

/-- Looking at the slot, and emptying it, send nothing. -/
theorem hasUsableStream_sends : Does (Sends new Cs) hasUsableStream := by
  refine does_step trivial fun b => ?_
  split
  · exact does_step trivial fun _ => does_step trivial fun _ => does_step trivial fun _ => does_pure _
  · exact does_pure _

theorem discardUnusable_sends : Does (Sends new Cs) discardUnusable := by
  refine does_step trivial fun b => ?_
  split
  · refine does_step trivial fun _ => does_step trivial fun old => ?_
    split
    · exact does_step trivial fun _ => does_step trivial fun _ => Prog.always_step trivial
    · exact does_step trivial fun _ => Prog.always_step trivial
  · exact does_pure _

/-- `connect` opens a connection and sends what sets it up. -/
theorem connect_sends (o : Options) : Does (Sends true (· ∈ setupCommands o)) (connect o) := by
  refine does_step trivial fun b => ?_
  split
  · exact does_pure _
  refine does_seq hasUsableStream_sends fun b => ?_
  split
  · exact does_pure _
  refine does_seq discardUnusable_sends fun _ => does_step rfl fun r => ?_
  split
  · exact does_pure _
  refine does_seq (does_setup o _ fun c hc => call_sends _ hc) fun r => ?_
  split
  · exact does_step trivial fun _ => does_pure _
  · exact does_step trivial fun _ => does_step trivial fun _ => does_step trivial fun _ => does_pure _

/-- `disconnect` sends `QUIT`, on a usable connection. -/
theorem disconnect_sends : Does (Sends false (· = .quit)) disconnect := by
  refine does_step trivial fun b => ?_
  split
  · exact does_pure _
  refine does_step trivial fun usable => does_step trivial fun _ => does_step trivial fun slot =>
    does_step trivial fun _ => ?_
  split
  · exact does_pure _
  refine does_step trivial fun _ => ?_
  split
  · exact does_step trivial fun _ => does_pure _
  · refine does_seq (call_sends _ rfl) fun r => ?_
    split
    · exact does_step trivial fun _ => does_pure _
    · exact does_seq (does_of_plain true true true (does_recordRemoteError _)) fun _ =>
        does_step trivial fun _ => does_pure _

/-- An owned stream works on its data socket alone. -/
theorem stream_sends (X : Ext) {s : OwnedStream} {op : StreamOp} {p : Io Out} (hp : runStream X s op = some p) :
    Does (Sends false fun _ => False) p := by
  have hplain {α : Type} {p : Io α} (hp : Does (Plain true true true fun _ => False) p) :
      Does (Sends false fun _ => False) p :=
    does_of_plain true true true hp
  have hwrite (h : Conn) : Does (Sends false fun _ => False) (FtpWriteStream.finishWrite X h) :=
    does_step trivial fun _ => does_step trivial fun _ => does_pure _
  have hdrop (s : WriteStream) : Does (Sends false fun _ => False) (FtpWriteStream.drop X s) := by
    unfold FtpWriteStream.drop
    split
    · exact Prog.always_step trivial
    · exact does_seq (hwrite _) fun r => does_seq (hplain (does_invalidateOnErr r)) fun _ => Prog.always_step trivial
  cases s with
  | read s =>
    cases op with
    | read n =>
      cases hp
      refine does_leaving ?_ _
      unfold FtpReadStream.read
      split
      · exact does_pure _
      split
      · trivial
      refine does_seq ?_ fun r => ?_
      · unfold FtpReadStream.readLimited
        split
        · refine does_step trivial fun r => ?_
          split <;> exact does_pure _
        split
        · exact does_pure _
        refine does_step trivial fun r => ?_
        split
        · exact does_pure _
        split
        · exact does_pure _
        · trivial
      · obtain ⟨result, remaining⟩ := r
        dsimp only
        split
        · exact does_pure _
        · split <;> exact does_pure _
    | finish =>
      cases hp
      exact does_leaving (hplain (does_seq (FtpReadStream.does_finishInner s) fun r =>
        does_seq (FtpReadStream.does_drop r.2) fun _ => does_pure _)) _
    | drop =>
      cases hp
      exact does_leaving (hplain (FtpReadStream.does_drop s)) _
    | write | flush => cases hp
  | write s =>
    cases op with
    | write buf =>
      cases hp
      refine does_leaving ?_ _
      unfold FtpWriteStream.write
      split
      · trivial
      · exact Prog.always_step trivial
    | flush =>
      cases hp
      refine does_leaving ?_ _
      unfold FtpWriteStream.flush
      split
      · trivial
      · exact Prog.always_step trivial
    | finish =>
      cases hp
      refine does_leaving ?_ _
      unfold FtpWriteStream.finish
      split
      · trivial
      · exact does_seq (hwrite _) fun r => does_seq (hplain (does_invalidateOnErr r)) fun _ =>
          does_seq (hdrop _) fun _ => does_pure _
    | drop => cases hp; exact does_leaving (hdrop s) _
    | read n => cases hp

end FtpFs

/-! ## The Tokio client -/

namespace TokioFtpFs

variable {new : Bool} {Cs : Command → Prop}

theorem call_sends (h : Conn) {c : Command} (hc : Cs c) : Does (Sends new Cs) (call h c) :=
  does_of_plain false true true (does_call h hc)

theorem hasUsableStream_sends : Does (Sends new Cs) hasUsableStream := by
  refine does_step trivial fun b => ?_
  split
  · exact does_step trivial fun _ => does_pure _
  · exact does_pure _

theorem discardUnusable_sends : Does (Sends new Cs) discardUnusable := by
  refine does_step trivial fun b => ?_
  split
  · refine does_step trivial fun old => ?_
    split
    · exact does_step trivial fun _ => does_step trivial fun _ => Prog.always_step trivial
    · exact does_step trivial fun _ => Prog.always_step trivial
  · exact does_pure _

/-- A dropped `connect` or `disconnect` closes its stream and sends nothing. -/
theorem owning_sends {h : Conn} {p : Io α} (hp : Does (Sends new Cs) p) : Does (Sends new Cs) (owning h p) := by
  refine Prog.always_holding hp fun e he => ?_
  obtain rfl := List.mem_singleton.mp he
  trivial

theorem connect_sends (o : Options) : Does (Sends true (· ∈ setupCommands o)) (connect o) := by
  refine does_step trivial fun b => ?_
  split
  · exact does_pure _
  refine does_seq hasUsableStream_sends fun b => ?_
  split
  · exact does_pure _
  refine does_seq discardUnusable_sends fun _ => does_await rfl fun r => ?_
  split
  · exact does_pure _
  refine does_seq (owning_sends (does_setup o _ fun c hc => call_sends _ hc)) fun r => ?_
  split
  · exact does_step trivial fun _ => does_pure _
  · exact does_step trivial fun _ => does_step trivial fun _ => does_step trivial fun _ =>
      does_step trivial fun _ => does_pure _

theorem disconnect_sends : Does (Sends false (· = .quit)) disconnect := by
  refine does_step trivial fun b => ?_
  split
  · exact does_pure _
  refine does_step trivial fun usable => does_step trivial fun slot => ?_
  split
  · exact does_pure _
  refine does_step trivial fun _ => does_step trivial fun _ => does_step trivial fun _ => ?_
  split
  · exact does_step trivial fun _ => does_pure _
  · refine does_seq (owning_sends (call_sends _ rfl)) fun r => ?_
    split
    · exact does_step trivial fun _ => does_pure _
    · exact does_seq (does_of_plain true true true (does_recordRemoteError _)) fun _ =>
        does_step trivial fun _ => does_pure _

theorem stream_sends (X : Ext) {s : OwnedStream} {op : StreamOp} {p : Io Out} (hp : runStream X s op = some p) :
    Does (Sends false fun _ => False) p :=
  does_of_plain false true true (tokio_stream_plain X hp)

end TokioFtpFs

end RemotefsFtp.L3
