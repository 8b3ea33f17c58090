import IotEdge.Lib.Machine
import IotEdge.Gateway.PollTable
import IotEdge.Gateway.UdpServer
import IotEdge.Gateway.IpcStream

/-!
# The event loop

`start_event_loop` waits in `poll` and then goes over the table once: a *pass*.
An entry that is readable is *serviced*: the datagram socket is read, the
listening socket is asked for a client, and any other descriptor is a client
whose data is read.  A client that has gone is removed, and the index steps back
so that the entry moved into its place is looked at next.

A label is one iteration of the inner loop, or what another party does between
two of them: a local client writes, the upload thread takes a record.  The
second record of a combined datagram is a label of its own, since the upload
thread may run in between.  Everything a system call returns is in the label.

The state has some fields that are not in the source.  `polled` and `serviced`
belong to the pass in progress.  `accepted` and `closed` list the descriptors
that `accept` returned and that were closed, in order.  `conns` is what passed
over each connection.  A client may write before it is accepted; here its bytes
arrive with the first write behind the `accept`, before anything reads them.
-/

namespace IotEdge.EventLoop

/-- The arguments of `start_event_loop`.  A socket that could not be opened is
negative, and two open sockets are different. -/
structure Sockets where
  udpSock : Int
  ipcSock : Int
  /-- Two open sockets are different. -/
  distinct : 0 ≤ udpSock → udpSock ≠ ipcSock

/-- What a descriptor is taken for. -/
inductive Source where
  | udp
  | ipc
  /-- Any other descriptor. -/
  | client
deriving DecidableEq

namespace Sockets

/-- The tests on `fds[i].fd`. -/
def source (sk : Sockets) (fd : Int) : Source :=
  if fd = sk.udpSock then .udp else if fd = sk.ipcSock then .ipc else .client

/-- The descriptor is one of the sockets that were valid at start. -/
def IsListener (sk : Sockets) (fd : Int) : Prop := 0 ≤ fd ∧ sk.source fd ≠ .client

instance (sk : Sockets) (fd : Int) : Decidable (sk.IsListener fd) :=
  inferInstanceAs (Decidable (_ ∧ _))

/-- The table when the loop starts. -/
def table (sk : Sockets) : PollTable :=
  let t := if 0 ≤ sk.udpSock then PollTable.empty.register sk.udpSock else PollTable.empty
  if 0 ≤ sk.ipcSock then t.register sk.ipcSock else t

end Sockets

/-- Where the loop is. -/
inductive Pc where
  /-- At `while (g_running)` or in `poll`. -/
  | atPoll
  /-- At the test `i < nfds`. -/
  | scanning (i : Nat)
  /-- In `handle_udp_read`, with these push sites left.  The loop goes on with
  the index `next`. -/
  | pushing (next : Nat) (sites : List PushSite)
  /-- The loop is over. -/
  | stopped
deriving DecidableEq

/-- The event loop, its clients and the two stores. -/
structure State where
  /-- `fds` and `nfds`. -/
  table : PollTable
  /-- Where the loop is. -/
  pc : Pc
  /-- The ring and the blackboard. -/
  store : Store
  /-- The connection behind each descriptor. -/
  conns : Int → Conn
  /-- The descriptors that the `poll` of this pass reported `POLLIN` for. -/
  polled : List Int
  /-- The descriptors serviced in this pass, in order. -/
  serviced : List Int
  /-- The descriptors that `accept` returned. -/
  accepted : List Int
  /-- The client descriptors that were closed. -/
  closed : List Int

/-- The labels. -/
inductive Action where
  /-- `g_running` is `0`. -/
  | quit
  /-- `poll` returns with these `revents`. -/
  | poll (revents : Nat → UInt16)
  /-- `poll` fails, by a signal or otherwise. -/
  | pollFailed (interrupted : Bool)
  /-- An entry without `POLLIN`. -/
  | skip
  /-- The end of the pass. -/
  | endPass
  /-- `handle_udp_read` receives `bytes`, and gets a token or not. -/
  | recvfrom (bytes : List UInt8) (token : Bool)
  /-- The next push site of `handle_udp_read`. -/
  | push (now : Int64)
  /-- `handle_udp_read` returns. -/
  | leave
  /-- `accept` returns `clientFd`. -/
  | accept (clientFd : Int)
  /-- `read` returns `n > 0`.  Before it, `data` held `stack`. -/
  | read (n : Nat) (stack : List UInt8)
  /-- `read` returns `0` or fails. -/
  | hangup
  /-- A client writes a structure. -/
  | send (fd : Int) (data : IPCData) (padding : UInt32)
  /-- A client writes any bytes. -/
  | sendRaw (fd : Int) (bytes : List UInt8)
  /-- The upload thread takes a record.  It does so only when there is one, by
  `CloudClient.queue_semaphore_protocol`. -/
  | consume

/-- The entry `i` is in use, readable, and of this kind. -/
def Readable (sk : Sockets) (t : PollTable) (i : Nat) (src : Source) : Prop :=
  i < t.nfds ∧ (t.fds i).readable = true ∧ sk.source (t.fds i).fd = src

instance (sk : Sockets) (t : PollTable) (i : Nat) (src : Source) :
    Decidable (Readable sk t i src) := inferInstanceAs (Decidable (_ ∧ _))

/-- `fds[i].fd`. -/
def State.fd (s : State) (i : Nat) : Int := (s.table.fds i).fd

/-- One step. -/
def step (sk : Sockets) (parse : List UInt8 → UdpMessage) (s : State) : Action → Option State
  | .quit =>
      match s.pc with
      | .atPoll => some { s with pc := .stopped }
      | _ => none
  | .poll revents =>
      match s.pc with
      | .atPoll => some { s with
          table := s.table.poll revents
          pc := .scanning 0
          polled := (s.table.poll revents).ready
          serviced := [] }
      | _ => none
  | .pollFailed interrupted =>
      match s.pc with
      | .atPoll => some (if interrupted then s else { s with pc := .stopped })
      | _ => none
  | .skip =>
      match s.pc with
      | .scanning i =>
          if i < s.table.nfds ∧ (s.table.fds i).readable = false then
            some { s with pc := .scanning (i + 1) }
          else none
      | _ => none
  | .endPass =>
      match s.pc with
      | .scanning i => if s.table.nfds ≤ i then some { s with pc := .atPoll } else none
      | _ => none
  | .recvfrom bytes token =>
      match s.pc with
      | .scanning i =>
          if Readable sk s.table i .udp then
            some { s with
              pc := .pushing (i + 1) (handleUdpRead parse bytes token)
              serviced := s.serviced ++ [s.fd i] }
          else none
      | _ => none
  | .push now =>
      match s.pc with
      | .pushing next (site :: sites) =>
          some { s with store := s.store.pushUdp site now, pc := .pushing next sites }
      | _ => none
  | .leave =>
      match s.pc with
      | .pushing next [] => some { s with pc := .scanning next }
      | _ => none
  | .accept clientFd =>
      match s.pc with
      | .scanning i =>
          if Readable sk s.table i .ipc ∧ ¬ s.table.Holds clientFd then
            if clientFd < 0 then
              some { s with pc := .scanning (i + 1), serviced := s.serviced ++ [s.fd i] }
            else if s.table.nfds < maxPollFds then
              some { s with
                table := s.table.register clientFd
                pc := .scanning (i + 1)
                conns := Function.update s.conns clientFd .fresh
                serviced := s.serviced ++ [s.fd i]
                accepted := s.accepted ++ [clientFd] }
            else
              some { s with
                pc := .scanning (i + 1)
                serviced := s.serviced ++ [s.fd i]
                accepted := s.accepted ++ [clientFd]
                closed := s.closed ++ [clientFd] }
          else none
      | _ => none
  | .read n stack =>
      match s.pc with
      | .scanning i =>
          let conn := s.conns (s.fd i)
          let data := conn.readData n stack
          if Readable sk s.table i .client ∧ 0 < n ∧ n ≤ sizeofIPCData ∧
              conn.received + n ≤ conn.stream.length then
            match s.store.push data with
            | some store => some { s with
                pc := .scanning (i + 1)
                store := store
                conns := Function.update s.conns (s.fd i) (conn.receive n (some data))
                serviced := s.serviced ++ [s.fd i] }
            | none => some { s with
                pc := .scanning (i + 1)
                conns := Function.update s.conns (s.fd i) (conn.receive n none)
                serviced := s.serviced ++ [s.fd i] }
          else none
      | _ => none
  | .hangup =>
      match s.pc with
      | .scanning i =>
          if Readable sk s.table i .client then
            -- `i--` and the `i++` of the loop leave the index as it is.
            some { s with
              table := s.table.remove i
              serviced := s.serviced ++ [s.fd i]
              closed := s.closed ++ [s.fd i] }
          else none
      | _ => none
  | .send fd data padding =>
      if s.table.Holds fd ∧ ¬ sk.IsListener fd then
        some { s with conns := Function.update s.conns fd ((s.conns fd).send data padding) }
      else none
  | .sendRaw fd bytes =>
      if s.table.Holds fd ∧ ¬ sk.IsListener fd then
        some { s with conns := Function.update s.conns fd ((s.conns fd).sendRaw bytes) }
      else none
  | .consume =>
      if 0 < s.store.queue.occupancy then
        some { s with store := { s.store with queue := s.store.queue.pop } }
      else none

/-- The call of `start_event_loop`. -/
def start (sk : Sockets) : State where
  table := sk.table
  pc := .atPoll
  store := .init
  conns := fun _ => .fresh
  polled := []
  serviced := []
  accepted := []
  closed := []

/-- The event loop on the sockets `sk`, with datagrams read by `parse`. -/
def machine (sk : Sockets) (parse : List UInt8 → UdpMessage) : Machine State Action :=
  ⟨start sk, step sk parse⟩

/-- Sockets as the kernel numbers them. -/
def Sockets.usual : Sockets := ⟨3, 4, by decide⟩

/-- The `revents` of a `poll` that reports one entry. -/
def onlyAt (i : Nat) : Nat → UInt16 := fun j => if j = i then pollIn else 0

/-- A client connects and writes one record.  The loop comes to its entry. -/
def oneRecord : List Action :=
  [.poll (onlyAt 1), .skip, .accept 7, .skip, .endPass,
    .send 7 ⟨16790, ⟨0x4035800000000000⟩⟩ 0, .poll (onlyAt 2), .skip, .skip]

/-! ## The transitions -/

/-- The transitions of `step`, one constructor for each outcome. -/
inductive Step (sk : Sockets) (parse : List UInt8 → UdpMessage) (s : State) :
    Action → State → Prop where
  | quit : s.pc = .atPoll → Step sk parse s .quit { s with pc := .stopped }
  | polled {revents : Nat → UInt16} :
      s.pc = .atPoll →
      Step sk parse s (.poll revents) { s with
        table := s.table.poll revents
        pc := .scanning 0
        polled := (s.table.poll revents).ready
        serviced := [] }
  | interrupted : s.pc = .atPoll → Step sk parse s (.pollFailed true) s
  | failed : s.pc = .atPoll → Step sk parse s (.pollFailed false) { s with pc := .stopped }
  | skipped {i : Nat} :
      s.pc = .scanning i → i < s.table.nfds → (s.table.fds i).readable = false →
      Step sk parse s .skip { s with pc := .scanning (i + 1) }
  | ended {i : Nat} :
      s.pc = .scanning i → s.table.nfds ≤ i → Step sk parse s .endPass { s with pc := .atPoll }
  | received {i : Nat} {bytes : List UInt8} {token : Bool} :
      s.pc = .scanning i → Readable sk s.table i .udp →
      Step sk parse s (.recvfrom bytes token) { s with
        pc := .pushing (i + 1) (handleUdpRead parse bytes token)
        serviced := s.serviced ++ [s.fd i] }
  | pushed {next : Nat} {site : PushSite} {sites : List PushSite} {now : Int64} :
      s.pc = .pushing next (site :: sites) →
      Step sk parse s (.push now)
        { s with store := s.store.pushUdp site now, pc := .pushing next sites }
  | left {next : Nat} :
      s.pc = .pushing next [] → Step sk parse s .leave { s with pc := .scanning next }
  | acceptFailed {i : Nat} {clientFd : Int} :
      s.pc = .scanning i → Readable sk s.table i .ipc → clientFd < 0 →
      Step sk parse s (.accept clientFd)
        { s with pc := .scanning (i + 1), serviced := s.serviced ++ [s.fd i] }
  | accepted {i : Nat} {clientFd : Int} :
      s.pc = .scanning i → Readable sk s.table i .ipc → ¬ s.table.Holds clientFd →
      0 ≤ clientFd → s.table.nfds < maxPollFds →
      Step sk parse s (.accept clientFd) { s with
        table := s.table.register clientFd
        pc := .scanning (i + 1)
        conns := Function.update s.conns clientFd .fresh
        serviced := s.serviced ++ [s.fd i]
        accepted := s.accepted ++ [clientFd] }
  | turnedAway {i : Nat} {clientFd : Int} :
      s.pc = .scanning i → Readable sk s.table i .ipc → ¬ s.table.Holds clientFd →
      0 ≤ clientFd → maxPollFds ≤ s.table.nfds →
      Step sk parse s (.accept clientFd) { s with
        pc := .scanning (i + 1)
        serviced := s.serviced ++ [s.fd i]
        accepted := s.accepted ++ [clientFd]
        closed := s.closed ++ [clientFd] }
  | read {i n : Nat} {stack : List UInt8} {store : Store} :
      s.pc = .scanning i → Readable sk s.table i .client → 0 < n → n ≤ sizeofIPCData →
      (s.conns (s.fd i)).received + n ≤ (s.conns (s.fd i)).stream.length →
      s.store.push ((s.conns (s.fd i)).readData n stack) = some store →
      Step sk parse s (.read n stack) { s with
        pc := .scanning (i + 1)
        store := store
        conns := Function.update s.conns (s.fd i)
          ((s.conns (s.fd i)).receive n (some ((s.conns (s.fd i)).readData n stack)))
        serviced := s.serviced ++ [s.fd i] }
  | dropped {i n : Nat} {stack : List UInt8} :
      s.pc = .scanning i → Readable sk s.table i .client → 0 < n → n ≤ sizeofIPCData →
      (s.conns (s.fd i)).received + n ≤ (s.conns (s.fd i)).stream.length →
      s.store.push ((s.conns (s.fd i)).readData n stack) = none →
      Step sk parse s (.read n stack) { s with
        pc := .scanning (i + 1)
        conns := Function.update s.conns (s.fd i) ((s.conns (s.fd i)).receive n none)
        serviced := s.serviced ++ [s.fd i] }
  | hungUp {i : Nat} :
      s.pc = .scanning i → Readable sk s.table i .client →
      Step sk parse s .hangup { s with
        table := s.table.remove i
        serviced := s.serviced ++ [s.fd i]
        closed := s.closed ++ [s.fd i] }
  | sent {fd : Int} {data : IPCData} {padding : UInt32} :
      Step sk parse s (.send fd data padding)
        { s with conns := Function.update s.conns fd ((s.conns fd).send data padding) }
  | sentRaw {fd : Int} {bytes : List UInt8} :
      Step sk parse s (.sendRaw fd bytes)
        { s with conns := Function.update s.conns fd ((s.conns fd).sendRaw bytes) }
  | consumed :
      0 < s.store.queue.occupancy →
      Step sk parse s .consume { s with store := { s.store with queue := s.store.queue.pop } }

variable {sk : Sockets} {parse : List UInt8 → UdpMessage}

/-- Every step is one of the transitions. -/
theorem step_cases {s s' : State} {a : Action} (h : step sk parse s a = some s') :
    Step sk parse s a s' := by
  cases a with
  | quit =>
      simp only [step] at h
      split at h
      next hpc => cases h; exact .quit hpc
      next => cases h
  | poll revents =>
      simp only [step] at h
      split at h
      next hpc => cases h; exact .polled hpc
      next => cases h
  | pollFailed interrupted =>
      simp only [step] at h
      split at h
      next hpc =>
        cases interrupted with
        | true => cases h; exact .interrupted hpc
        | false => cases h; exact .failed hpc
      next => cases h
  | skip =>
      simp only [step] at h
      split at h
      next hpc =>
        split at h
        next hslot => cases h; exact .skipped hpc hslot.1 hslot.2
        next => cases h
      next => cases h
  | endPass =>
      simp only [step] at h
      split at h
      next hpc =>
        split at h
        next hend => cases h; exact .ended hpc hend
        next => cases h
      next => cases h
  | recvfrom bytes token =>
      simp only [step] at h
      split at h
      next hpc =>
        split at h
        next hslot => cases h; exact .received hpc hslot
        next => cases h
      next => cases h
  | push now =>
      simp only [step] at h
      split at h
      next hpc => cases h; exact .pushed hpc
      next => cases h
  | leave =>
      simp only [step] at h
      split at h
      next hpc => cases h; exact .left hpc
      next => cases h
  | accept clientFd =>
      simp only [step] at h
      split at h
      next hpc =>
        split at h
        next hslot =>
          split at h
          next hneg => cases h; exact .acceptFailed hpc hslot.1 hneg
          next hnonneg =>
            have hfd := Int.not_lt.mp hnonneg
            split at h
            next hroom => cases h; exact .accepted hpc hslot.1 hslot.2 hfd hroom
            next hfull => cases h; exact .turnedAway hpc hslot.1 hslot.2 hfd (Nat.not_lt.mp hfull)
        next => cases h
      next => cases h
  | read n stack =>
      simp only [step] at h
      split at h
      next hpc =>
        split at h
        next hslot =>
          obtain ⟨hslot, hpos, hle, havail⟩ := hslot
          split at h
          next hpush => cases h; exact .read hpc hslot hpos hle havail hpush
          next hpush => cases h; exact .dropped hpc hslot hpos hle havail hpush
        next => cases h
      next => cases h
  | hangup =>
      simp only [step] at h
      split at h
      next hpc =>
        split at h
        next hslot => cases h; exact .hungUp hpc hslot
        next => cases h
      next => cases h
  | send fd data padding =>
      simp only [step] at h
      split at h
      next => cases h; exact .sent
      next => cases h
  | sendRaw fd bytes =>
      simp only [step] at h
      split at h
      next => cases h; exact .sentRaw
      next => cases h
  | consume =>
      simp only [step] at h
      split at h
      next hocc => cases h; exact .consumed hocc
      next => cases h

end IotEdge.EventLoop
