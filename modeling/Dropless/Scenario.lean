import Dropless.Effects
import Dropless.Txn.Replay

namespace Dropless

abbrev Move := Txn.Move lang Time (List Uuid) Pid Job

/- A world with one time, one fresh id and one answer to a POST. -/
def world (now : Time) (fresh : Uuid) (reply : Except String Response) : (c : Call) → c.Reply
  | .utcNow => now
  | .newUuid => fresh
  | .jitter _ => 0
  | .post _ => reply
  | .generateSecret => ""
  | .rateLimit _ => none

def go (n : Nat) (pid : Pid) (now : Time) (fresh : Uuid)
    (reply : Except String Response) : List Move :=
  List.replicate n (.go pid now [] (world now fresh reply))

/- Stand-ins that agree with the real functions where a run below uses them: the JSON
`null`, and an HMAC that takes any key. -/
def plain : Prims where
  sha256 bytes := bytes
  macKey _ := .ok ()
  hmacSha256 _ _ := []
  base64Encode _ := ""
  base64Decode _ := none
  fromSlice _ := none
  toVec _ := .ok [110, 117, 108, 108]
  lossyText _ := ""
  printable c := 32 ≤ c.toNat ∧ c.toNat < 127

def replay (κ : Prims) (cfg : DispatcherConfig) (s : State) (moves : List Move) : Option State :=
  Txn.play (engine κ cfg) (fun _ _ => true) s moves

theorem replay_reach {κ : Prims} {cfg : DispatcherConfig} {moves : List Move} {s t : State}
    (h : replay κ cfg s moves = some t) : Txn.Reach (engine κ cfg) Txn.anyStep s t :=
  Txn.play_reach (fun _ _ _ => trivial) h

def lastStep (κ : Prims) (cfg : DispatcherConfig) (moves : List Move) (last : Move) :
    Option (State × State) :=
  (replay κ cfg (.start .empty) moves).bind fun s =>
    (Txn.act (engine κ cfg) s last).map fun t => (s, t)

theorem lastStep_run {κ : Prims} {cfg : DispatcherConfig} {moves : List Move} {last : Move}
    {s t : State} (h : lastStep κ cfg moves last = some (s, t)) :
    Run κ cfg Txn.anyStep .empty s ∧ Txn.Step (engine κ cfg) s t := by
  simp only [lastStep, Option.bind_eq_some_iff, Option.map_eq_some_iff] at h
  obtain ⟨_, played, _, moved, eq⟩ := h
  cases eq
  exact ⟨replay_reach played, Txn.act_step moved⟩

/- A tenant with one endpoint, 1, and a published event, 2, with its delivery, 3. -/
def published : List Move :=
  .spawn (.client 0) (.command (.createEndpoint "t" "http://a" "s" [] none)) ::
    go 3 (.client 0) 0 1 (.error "") ++
  .spawn (.client 0) (.enqueueMessage "t" none "x" .null) ::
    go 4 (.client 0) 0 2 (.error "") ++ go 4 (.client 0) 0 3 (.error "")

def attempted (pid : Pid) (index : Nat) (now : Time) (fresh : Uuid)
    (reply : Except String Response) : List Move :=
  .spawn pid (.claim (workerId index)) :: go 15 pid now fresh reply

def refused (pid : Pid) (index : Nat) (now : Time) (fresh : Uuid) : List Move :=
  .spawn pid (.claim (workerId index)) :: go 18 pid now fresh (.error "refused")

end Dropless
