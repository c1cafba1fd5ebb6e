import Keyring.Rehearsal.Basic
/-!
# The clock of a rehearsal

At one instant every watch loop runs until it waits for the clock or for an event. Then the clock
moves to the next end of a pause or look at a file. No pause lasts longer than thirty years.
-/
namespace Keyring.Rehearsal

def longestPause : Nat := 946080000000

def pauseMillis (delay : Duration) : Nat := min delay.millisUp longestPause

/-! ## Watch loops -/

/-- Sets the loop of a participant and its cache. -/
def setLoop (i : Nat) (l : WatchLoop) (cache : Cache) : Act Unit :=
  modifyParticipant i fun p => { p.withLoop l with cache }

/-- Ends the watch from which a participant's loop takes events. -/
def dropSubscription (i : Nat) : Act Unit := do
  match (← participant i).subscription with
  | some subscription =>
    modify fun r => { r with storage := r.storage.drop subscription }
    modifyParticipant i fun p => { p with subscription := none }
  | none => pure ()

/-- Takes the events that are there, and tells whether the watch has ended. -/
def takeEvents (i : Nat) : Act (List WatchEvent × Bool) := do
  match (← participant i).subscription with
  | none => return ([], true)
  | some subscription =>
    let now := (← get).clock
    let (subscription, events, ended) ← onStorage fun s => s.take now subscription
    modifyParticipant i fun p => { p with subscription := some subscription }
    return (events, ended)

/-- Starts the pause of a loop, or ends it at once if it takes no time. Tells whether it ended. -/
def startPause (i : Nat) (l : WatchLoop) (delay : Duration) : Act Bool := do
  if pauseMillis delay = 0 then
    modifyParticipant i fun p => p.withLoop l.resume
    return true
  else
    modify fun r => { r with nextAlarm := r.nextAlarm + 1 }
    let r ← get
    modifyParticipant i fun p =>
      { p with alarm := some ⟨r.clock + pauseMillis delay, r.nextAlarm⟩ }
    return false

/-- Lets a participant's loop take a step, and tells whether it could. -/
def stepLoop (i : Nat) : Act Bool := do
  let p ← participant i
  match p.loop with
  | none => return false
  | some l =>
    if l.isOver then return false
    else if p.cancelled then
      dropSubscription i
      modifyParticipant i fun p => { p.withLoop l.cancel with alarm := none }
      return true
    else
      match l.phase with
      | .stopped | .broken _ => return false
      | .listing =>
        let (l, cache) := l.listed p.cache (← callList i)
        setLoop i l cache
        return true
      | .opening token =>
        let result ← callWatch i token
        modifyParticipant i fun p => { p with subscription := result.toOption }
        setLoop i (l.opened (result.map fun _ => ())) p.cache
        return true
      | .watching =>
        let (events, ended) ← takeEvents i
        let (l, cache) := l.receiveAll p.cache events
        let l := if l.phase = .watching ∧ ended then l.fail else l
        setLoop i l cache
        if l.phase = .watching then return false
        else
          dropSubscription i
          return true
      | .backoff delay =>
        if p.alarm.isSome then return false else startPause i l delay

/-- Lets a participant's loop run until it waits. -/
def runLoop (i : Nat) : (fuel : Nat) → Act Unit
  | 0 => pure ()
  | fuel + 1 => do if ← stepLoop i then runLoop i fuel

/-- The most steps of a loop at one instant. -/
def stepLimit : Nat := 10000000

def endReplaced (p : Participant) : Participant :=
  if p.replaced then { p with shown := .stopped, replaced := false } else p

/-- Lets everything run until it waits. A loop that was replaced ends after the new one has run. -/
def settle : Act Unit := do
  modify fun r => { r with storage := r.storage.forwardAll }
  for i in List.range (← get).participants.length do
    runLoop i stepLimit
    modifyParticipant i endReplaced

/-! ## Time -/

/-- The pauses under way, with the participants. -/
def alarms (r : Rehearsal) : List (Alarm × Nat) :=
  r.participants.zipIdx.filterMap fun (p, i) => p.alarm.map (·, i)

/-- The pause that ends first. -/
def nextAlarm? (r : Rehearsal) : Option (Alarm × Nat) :=
  r.alarms.foldl (fun first a =>
    match first with
    | none => some a
    | some b => if a.1.isBefore b.1 then some a else some b) none

/-- Ends the pause of a participant's loop. -/
def endPause (i : Nat) : Act Unit :=
  modifyParticipant i fun p =>
    match p.loop with
    | some l => { p.withLoop l.resume with alarm := none }
    | none => { p with alarm := none }

/-- Moves the clock on, never back. -/
def moveClock (time : Nat) : Act Unit := modify fun r => { r with clock := max r.clock time }

/-- Does what is due first, if it is due by a time, and tells whether anything was. -/
def doNext (limit : Nat) : Act Bool := do
  let r ← get
  let pause := r.nextAlarm?.filter fun a => a.1.time ≤ limit
  let look := r.storage.nextLook?.filter (· ≤ limit)
  match pause, look with
  | none, none => return false
  | some (alarm, i), none =>
    moveClock alarm.time
    endPause i
    return true
  | none, some time =>
    moveClock time
    modify fun r => { r with storage := r.storage.tickAll r.clock }
    return true
  | some (alarm, i), some time =>
    if time ≤ alarm.time then
      moveClock time
      modify fun r => { r with storage := r.storage.tickAll r.clock }
    else
      moveClock alarm.time
      endPause i
    return true

def runDue (limit : Nat) : (fuel : Nat) → Act Unit
  | 0 => pure ()
  | fuel + 1 => do
    settle
    if ← doNext limit then runDue limit fuel

/-- Lets everything run up to a time. At each instant a pause of a participant can end, and each end
of a pause can start one watch on a file. -/
def runUntil (limit : Nat) : Act Unit := do
  let r ← get
  let instants := limit + 1 - r.clock
  runDue limit (2 * (instants + 1) * (r.participants.length + 1) + r.storage.pollers.entries.length)
  modify fun r => { r with storage := r.storage.tickAll limit }

/-- Waits without doing anything. Who waits goes on before others who have waited for the same
instant; who waits for no time at all does not let others run. -/
def wait (millis : Nat) : Act Unit := do
  if millis = 0 then return
  let limit := (← get).clock + min millis longestPause
  runUntil (limit - 1)
  moveClock limit

/-- Lets one more millisecond pass, everything run that is due by then, and looks at all
participants. -/
def observe : Act (List View) := do
  let limit := (← get).clock + 1
  runUntil limit
  moveClock limit
  let views := (← get).participants.map Participant.view
  modify fun r => { r with participants := r.participants.map fun p => { p with calls := [] } }
  return views

end Keyring.Rehearsal
