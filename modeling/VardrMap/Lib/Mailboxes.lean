import Mathlib.Logic.Function.Basic
import Mathlib.Data.List.Nodup
import VardrMap.Lib.Runs

/-!
# Mailboxes by topic

A hub knows who watches which topic, and keeps a bounded mailbox for each client. A message to a
topic goes into every mailbox of the topic that has room; a client whose mailbox is full stops
watching. The account of a client says what all this amounts to: what it took, followed by what
waits for it, is everything its topic got since it started watching, up to the point where it
stopped.
-/
namespace Lib

/-- Who watches what, and what waits for whom. Clients are numbered as they come. -/
structure Hub (κ α : Type) where
  clients : ℕ
  watching : List (κ × ℕ)
  waiting : ℕ → List α

/-- What happens at a hub. -/
inductive Hub.Event (κ α : Type) where
  | subscribed (topic : κ) (client : ℕ)
  | unsubscribed (topic : κ) (client : ℕ)
  | notified (topic : κ) (message : α)
  | got (client : ℕ) (message : Option α)

namespace Hub

variable {κ α : Type} [DecidableEq κ]

def empty : Hub κ α := ⟨0, [], fun _ => []⟩

/-- A new client, with an empty mailbox. -/
def subscribe (h : Hub κ α) (topic : κ) : Hub κ α where
  clients := h.clients + 1
  watching := h.watching ++ [(topic, h.clients)]
  waiting := Function.update h.waiting h.clients []

def unsubscribe (h : Hub κ α) (topic : κ) (client : ℕ) : Hub κ α :=
  { h with watching := h.watching.erase (topic, client) }

/-- The clients that watch a topic. -/
def watchers (h : Hub κ α) (topic : κ) : List ℕ :=
  (h.watching.filter fun p => p.1 = topic).map Prod.snd

/-- Put a message where there is room. -/
def put (capacity : ℕ) (h : Hub κ α) (client : ℕ) (message : α) : Option (Hub κ α) :=
  if (h.waiting client).length < capacity then
    some { h with waiting := Function.update h.waiting client (h.waiting client ++ [message]) }
  else none

/-- Put a message into one mailbox after the other, and collect the clients without room. -/
def deliver (capacity : ℕ) (message : α) : List ℕ → Hub κ α → Hub κ α × List ℕ
  | [], h => (h, [])
  | client :: clients, h =>
    match put capacity h client message with
    | some h => deliver capacity message clients h
    | none =>
      let r := deliver capacity message clients h
      (r.1, client :: r.2)

/-- Put a message into the mailboxes of a topic; whoever has no room stops watching. -/
def notify (capacity : ℕ) (h : Hub κ α) (topic : κ) (message : α) : Hub κ α :=
  let r := deliver capacity message (h.watchers topic) h
  r.2.foldl (fun h client => h.unsubscribe topic client) r.1

/-- Take the first message that waits. -/
def get (h : Hub κ α) (client : ℕ) : Option α × Hub κ α :=
  ((h.waiting client).head?,
    { h with waiting := Function.update h.waiting client (h.waiting client).tail })

/-- One step of a hub. -/
inductive Step (capacity : ℕ) : Hub κ α → List (Event κ α) → Hub κ α → Prop
  | subscribed {h : Hub κ α} (topic : κ) :
      Step capacity h [.subscribed topic h.clients] (h.subscribe topic)
  | unsubscribed {h : Hub κ α} (topic : κ) (client : ℕ) :
      Step capacity h [.unsubscribed topic client] (h.unsubscribe topic client)
  | notified {h : Hub κ α} (topic : κ) (message : α) :
      Step capacity h [.notified topic message] (h.notify capacity topic message)
  | got {h : Hub κ α} (client : ℕ) :
      Step capacity h [.got client (h.get client).1] (h.get client).2

/-! ## Delivery -/

/-- Every client watches one topic, and has come already. -/
structure Sound (h : Hub κ α) : Prop where
  once : (h.watching.map Prod.snd).Nodup
  known : ∀ p ∈ h.watching, p.2 < h.clients

variable {capacity : ℕ} {h h' : Hub κ α} {topic : κ} {client : ℕ} {message : α}

omit [DecidableEq κ] in
theorem Sound.empty : (empty : Hub κ α).Sound := ⟨List.nodup_nil, nofun⟩

theorem mem_watchers : client ∈ h.watchers topic ↔ (topic, client) ∈ h.watching := by
  unfold watchers
  simp

theorem Sound.watchers (hh : h.Sound) (topic : κ) : (h.watchers topic).Nodup :=
  hh.once.sublist (List.filter_sublist.map _)

omit [DecidableEq κ] in
/-- A delivery writes mailboxes only. -/
theorem deliver_watching (clients : List ℕ) (h : Hub κ α) :
    (deliver capacity message clients h).1.watching = h.watching ∧
      (deliver capacity message clients h).1.clients = h.clients := by
  induction clients generalizing h with
  | nil => exact ⟨rfl, rfl⟩
  | cons c clients ih =>
    unfold deliver put
    by_cases hroom : (h.waiting c).length < capacity
    · simp only [if_pos hroom]
      exact ih _
    · simp only [if_neg hroom]
      exact ih h

omit [DecidableEq κ] in
/-- What waits for a client after a delivery: it got the message if it had room. -/
theorem deliver_waiting {clients : List ℕ} (hclients : clients.Nodup) (h : Hub κ α) :
    (deliver capacity message clients h).1.waiting client =
      if client ∈ clients ∧ (h.waiting client).length < capacity then
        h.waiting client ++ [message] else h.waiting client := by
  induction clients generalizing h with
  | nil => simp [deliver]
  | cons c clients ih =>
    obtain ⟨hc, hclients⟩ := List.nodup_cons.mp hclients
    unfold deliver put
    by_cases hroom : (h.waiting c).length < capacity
    · simp only [if_pos hroom]
      rw [ih hclients]
      by_cases hsame : client = c
      · subst hsame
        simp [hc, hroom]
      · simp [hsame, Function.update_of_ne]
    · simp only [if_neg hroom]
      rw [ih hclients]
      by_cases hsame : client = c
      · subst hsame
        simp [hroom]
      · simp [hsame]

omit [DecidableEq κ] in
/-- The clients without room, in the order in which they watch. -/
theorem mem_deliver {clients : List ℕ} (hclients : clients.Nodup) (h : Hub κ α) :
    client ∈ (deliver capacity message clients h).2 ↔
      client ∈ clients ∧ capacity ≤ (h.waiting client).length := by
  induction clients generalizing h with
  | nil => simp [deliver]
  | cons c clients ih =>
    obtain ⟨hc, hclients⟩ := List.nodup_cons.mp hclients
    unfold deliver put
    by_cases hroom : (h.waiting c).length < capacity
    · simp only [if_pos hroom]
      rw [ih hclients]
      by_cases hsame : client = c
      · subst hsame
        simp [hc, hroom]
      · simp [hsame, Function.update_of_ne]
    · simp only [if_neg hroom, List.mem_cons]
      rw [ih hclients]
      by_cases hsame : client = c
      · subst hsame
        simp [Nat.le_of_not_lt hroom]
      · simp [hsame]

theorem foldl_unsubscribe (dead : List ℕ) (h : Hub κ α) :
    (dead.foldl (fun h client => h.unsubscribe topic client) h).waiting = h.waiting ∧
      (dead.foldl (fun h client => h.unsubscribe topic client) h).clients = h.clients ∧
      (dead.foldl (fun h client => h.unsubscribe topic client) h).watching =
        dead.foldl (fun l client => l.erase (topic, client)) h.watching := by
  induction dead generalizing h with
  | nil => exact ⟨rfl, rfl, rfl⟩
  | cons c dead ih => exact ih (h.unsubscribe topic c)

theorem mem_foldl_erase {dead : List ℕ} {l : List (κ × ℕ)} (hl : l.Nodup) {p : κ × ℕ} :
    p ∈ dead.foldl (fun l client => l.erase (topic, client)) l ↔
      p ∈ l ∧ ¬ (p.1 = topic ∧ p.2 ∈ dead) := by
  induction dead generalizing l with
  | nil => simp
  | cons c dead ih =>
    rw [List.foldl_cons, ih (hl.erase _), hl.mem_erase_iff, List.mem_cons]
    constructor
    · rintro ⟨⟨hne, hp⟩, hdead⟩
      refine ⟨hp, fun ⟨ht, hc⟩ => hc.elim (fun hc => hne (Prod.ext ht hc)) fun hc => hdead ⟨ht, hc⟩⟩
    · rintro ⟨hp, hdead⟩
      refine ⟨⟨fun hsame => hdead ?_, hp⟩, fun ⟨ht, hc⟩ => hdead ⟨ht, .inr hc⟩⟩
      rw [hsame]
      exact ⟨rfl, .inl rfl⟩

theorem notify_clients : (h.notify capacity topic message).clients = h.clients :=
  (foldl_unsubscribe _ _).2.1.trans (deliver_watching _ _).2

theorem Sound.notify_waiting (hh : h.Sound) :
    (h.notify capacity topic message).waiting client =
      if (topic, client) ∈ h.watching ∧ (h.waiting client).length < capacity then
        h.waiting client ++ [message] else h.waiting client := by
  unfold notify
  rw [(foldl_unsubscribe _ _).1, deliver_waiting (hh.watchers topic)]
  simp only [mem_watchers]

/-- Whoever has no room stops watching, and nobody else. -/
theorem Sound.mem_notify (hh : h.Sound) {p : κ × ℕ} :
    p ∈ (h.notify capacity topic message).watching ↔
      p ∈ h.watching ∧ ¬ (p.1 = topic ∧ capacity ≤ (h.waiting p.2).length) := by
  have hnodup : h.watching.Nodup := hh.once.of_map
  unfold notify
  rw [(foldl_unsubscribe _ _).2.2, (deliver_watching _ _).1, mem_foldl_erase hnodup]
  simp only [mem_deliver (hh.watchers topic), mem_watchers]
  constructor
  · rintro ⟨hp, hdead⟩
    exact ⟨hp, fun ⟨ht, hfull⟩ => hdead ⟨ht, ht ▸ hp, hfull⟩⟩
  · rintro ⟨hp, hdead⟩
    exact ⟨hp, fun ⟨ht, _, hfull⟩ => hdead ⟨ht, hfull⟩⟩

theorem notify_sublist :
    (h.notify capacity topic message).watching.Sublist h.watching := by
  have herase : ∀ (dead : List ℕ) (l : List (κ × ℕ)),
      (dead.foldl (fun l client => l.erase (topic, client)) l).Sublist l := fun dead => by
    induction dead with
    | nil => exact fun l => List.Sublist.refl l
    | cons c dead ih => exact fun l => (ih _).trans List.erase_sublist
  unfold notify
  rw [(foldl_unsubscribe _ _).2.2, (deliver_watching _ _).1]
  exact herase _ _

theorem Sound.step {es : List (Event κ α)} (hh : h.Sound) (hstep : Step capacity h es h') :
    Sound h' := by
  cases hstep with
  | subscribed topic =>
    refine ⟨?_, fun p hp => ?_⟩
    · change ((h.watching ++ [(topic, h.clients)]).map Prod.snd).Nodup
      rw [List.map_append, List.nodup_append]
      refine ⟨hh.once, List.nodup_singleton _, fun a ha b hb hab => ?_⟩
      obtain ⟨p, hp, rfl⟩ := List.mem_map.mp ha
      have hlt := hh.known p hp
      simp only [List.map_cons, List.map_nil, List.mem_singleton] at hb
      omega
    · have hp : p ∈ h.watching ++ [(topic, h.clients)] := hp
      rcases List.mem_append.mp hp with hp | hp
      · exact Nat.lt_succ_of_lt (hh.known p hp)
      · rw [List.mem_singleton.mp hp]
        exact Nat.lt_succ_self _
  | unsubscribed topic client =>
    have hsub : (h.unsubscribe topic client).watching.Sublist h.watching := List.erase_sublist
    exact ⟨hh.once.sublist (hsub.map _), fun p hp => hh.known p (hsub.subset hp)⟩
  | notified topic message =>
    have hsub : (h.notify capacity topic message).watching.Sublist h.watching := notify_sublist
    refine ⟨hh.once.sublist (hsub.map _), fun p hp => ?_⟩
    rw [notify_clients]
    exact hh.known p (hsub.subset hp)
  | got => exact ⟨hh.once, hh.known⟩

/-! ## The account of a client -/

/-- The messages to a topic. -/
def published (topic : κ) (es : List (Event κ α)) : List α :=
  es.filterMap fun e => match e with
    | .notified t message => if t = topic then some message else none
    | _ => none

/-- The messages that a client took. -/
def taken (client : ℕ) (es : List (Event κ α)) : List α :=
  es.filterMap fun e => match e with
    | .got c message => if c = client then message else none
    | _ => none

omit [DecidableEq κ] in
theorem taken_append (es fs : List (Event κ α)) :
    taken client (es ++ fs) = taken client es ++ taken client fs := List.filterMap_append ..

theorem published_append (es fs : List (Event κ α)) :
    published topic (es ++ fs) = published topic es ++ published topic fs :=
  List.filterMap_append ..

omit [DecidableEq κ] in
/-- What a client takes is taken from what waits for it. -/
theorem get_waiting (h : Hub κ α) (c : ℕ) :
    taken client [Event.got (κ := κ) c (h.get c).1] ++ (h.get c).2.waiting client =
      h.waiting client := by
  by_cases hsame : c = client
  · subst hsame
    simp only [taken, get, List.filterMap_cons, List.filterMap_nil, Function.update_self, if_pos]
    cases h.waiting c <;> rfl
  · have hne : client ≠ c := Ne.symm hsame
    simp [taken, get, hsame, hne, Function.update_of_ne]

omit [DecidableEq κ] in
theorem Sound.same (hh : h.Sound) {t : κ} (ht : (t, client) ∈ h.watching)
    (htopic : (topic, client) ∈ h.watching) : t = topic :=
  congrArg Prod.fst (List.inj_on_of_nodup_map hh.once ht htopic rfl)

/-- A client that watches nothing gets nothing. -/
theorem Step.stopped {es : List (Event κ α)} (hh : h.Sound) (hstep : Step capacity h es h')
    (hclient : client < h.clients) (hstops : ∀ t, (t, client) ∉ h.watching) :
    (∀ t, (t, client) ∉ h'.watching) ∧ taken client es ++ h'.waiting client = h.waiting client := by
  cases hstep with
  | subscribed t =>
    have hne : client ≠ h.clients := Nat.ne_of_lt hclient
    refine ⟨fun u hu => ?_, Function.update_of_ne hne ..⟩
    have hu : (u, client) ∈ h.watching ++ [(t, h.clients)] := hu
    rcases List.mem_append.mp hu with hu | hu
    · exact hstops u hu
    · exact hne (congrArg Prod.snd (List.mem_singleton.mp hu))
  | unsubscribed t c => exact ⟨fun u hu => hstops u (List.mem_of_mem_erase hu), rfl⟩
  | notified t message =>
    refine ⟨fun u hu => hstops u (hh.mem_notify.mp hu).1, ?_⟩
    exact hh.notify_waiting.trans (if_neg fun hput => hstops t hput.1)
  | got c => exact ⟨hstops, get_waiting h c⟩

/-- What ends a subscription: the client leaves, or its mailbox is full when a message comes. -/
inductive Leaves (capacity : ℕ) (h : Hub κ α) (topic : κ) (client : ℕ) : Event κ α → Prop
  | left : Leaves capacity h topic client (.unsubscribed topic client)
  | full (message : α) (full : capacity ≤ (h.waiting client).length) :
      Leaves capacity h topic client (.notified topic message)

/-- A client that watches a topic gets what the topic gets, or stops watching. -/
theorem Step.watching {es : List (Event κ α)} (hh : h.Sound) (hstep : Step capacity h es h')
    (hwatches : (topic, client) ∈ h.watching) :
    (topic, client) ∈ h'.watching ∧
        taken client es ++ h'.waiting client = h.waiting client ++ published topic es ∨
      (∀ t, (t, client) ∉ h'.watching) ∧
        taken client es ++ h'.waiting client = h.waiting client ∧
        ∃ e, es = [e] ∧ Leaves capacity h topic client e := by
  cases hstep with
  | subscribed t =>
    have hne : client ≠ h.clients := Nat.ne_of_lt (hh.known _ hwatches)
    refine .inl ⟨List.mem_append_left _ hwatches, ?_⟩
    exact (Function.update_of_ne hne ..).trans (List.append_nil _).symm
  | unsubscribed t c =>
    by_cases hsame : (topic, client) = (t, c)
    · obtain ⟨rfl, rfl⟩ := Prod.mk.inj hsame
      refine .inr ⟨fun u hu => ?_, rfl, _, rfl, .left⟩
      obtain rfl := hh.same (List.mem_of_mem_erase hu) hwatches
      have hnodup : h.watching.Nodup := hh.once.of_map
      exact (hnodup.mem_erase_iff.mp hu).1 rfl
    · exact .inl ⟨(List.mem_erase_of_ne hsame).mpr hwatches, (List.append_nil _).symm⟩
  | notified t message =>
    by_cases ht : t = topic
    · subst ht
      by_cases hroom : (h.waiting client).length < capacity
      · refine .inl ⟨hh.mem_notify.mpr ⟨hwatches, fun hfull => ?_⟩, ?_⟩
        · exact Nat.not_le_of_lt hroom hfull.2
        · refine hh.notify_waiting.trans ((if_pos ⟨hwatches, hroom⟩).trans ?_)
          simp [published]
      · have hfull := Nat.le_of_not_lt hroom
        refine .inr ⟨fun u hu => ?_, ?_, _, rfl, .full message hfull⟩
        · obtain ⟨hu, hkept⟩ := hh.mem_notify.mp hu
          exact hkept ⟨hh.same hu hwatches, hfull⟩
        · exact hh.notify_waiting.trans (if_neg fun hput => hroom hput.2)
    · refine .inl ⟨hh.mem_notify.mpr ⟨hwatches, fun hfull => ht hfull.1.symm⟩, ?_⟩
      refine hh.notify_waiting.trans ((if_neg fun hput => ht (hh.same hput.1 hwatches)).trans ?_)
      simp [published, ht]
  | got c => exact .inl ⟨hwatches, (get_waiting h c).trans (List.append_nil _).symm⟩

/-- The account of a client, from the events since it started to watch a topic. While it
watches, what it took and what waits for it are all the messages of the topic. Once it stopped,
they are those that came before: it left, or it was a whole mailbox behind. -/
inductive Account (capacity : ℕ) (topic : κ) (client : ℕ) (h : Hub κ α) (es : List (Event κ α)) :
    Prop
  | watching (watches : (topic, client) ∈ h.watching)
      (complete : taken client es ++ h.waiting client = published topic es)
  | left (before after : List (Event κ α)) (stops : ∀ t, (t, client) ∉ h.watching)
      (split : es = before ++ .unsubscribed topic client :: after)
      (complete : taken client es ++ h.waiting client = published topic before)
  | dropped (before after : List (Event κ α)) (message : α)
      (stops : ∀ t, (t, client) ∉ h.watching)
      (split : es = before ++ .notified topic message :: after)
      (behind : (taken client before).length + capacity ≤ (published topic before).length)
      (complete : taken client es ++ h.waiting client = published topic before)

theorem Account.subscribe (h : Hub κ α) (topic : κ) :
    Account capacity topic h.clients (h.subscribe topic) [] :=
  .watching (List.mem_append_right _ (List.mem_singleton_self _)) (Function.update_self ..)

/-- One step keeps the account. -/
theorem Account.step {es fs : List (Event κ α)} (ha : Account capacity topic client h es)
    (hh : h.Sound) (hclient : client < h.clients) (hstep : Step capacity h fs h') :
    Account capacity topic client h' (es ++ fs) := by
  have hsplit : ∀ {before after : List (Event κ α)} {e : Event κ α}, es = before ++ e :: after →
      es ++ fs = before ++ e :: (after ++ fs) := fun hes => by
    rw [hes, List.append_assoc]
    rfl
  cases ha with
  | watching watches complete =>
    rcases hstep.watching hh watches with ⟨hwatches, hgets⟩ | ⟨hstops, hkeeps, e, rfl, hleaves⟩
    · refine .watching hwatches ?_
      rw [taken_append, List.append_assoc, hgets, ← List.append_assoc, complete, published_append]
    · have hcomplete : taken client (es ++ [e]) ++ h'.waiting client = published topic es := by
        rw [taken_append, List.append_assoc, hkeeps, complete]
      cases hleaves with
      | left => exact .left es [] hstops rfl hcomplete
      | full message hfull =>
        refine .dropped es [] message hstops rfl ?_ hcomplete
        rw [← complete, List.length_append]
        exact Nat.add_le_add_left hfull _
  | left before after stops split complete =>
    obtain ⟨hstops, hkeeps⟩ := hstep.stopped hh hclient stops
    refine .left before _ hstops (hsplit split) ?_
    rw [taken_append, List.append_assoc, hkeeps, complete]
  | dropped before after message stops split behind complete =>
    obtain ⟨hstops, hkeeps⟩ := hstep.stopped hh hclient stops
    refine .dropped before _ message hstops (hsplit split) behind ?_
    rw [taken_append, List.append_assoc, hkeeps, complete]

theorem Step.clients_le {es : List (Event κ α)} (hstep : Step capacity h es h') :
    h.clients ≤ h'.clients := by
  cases hstep with
  | subscribed => exact Nat.le_succ _
  | notified => exact Nat.le_of_eq notify_clients.symm
  | _ => exact Nat.le_refl _

theorem Sound.of_run {es : List (Event κ α)} (hrun : Run (Step capacity) .empty es h) : h.Sound :=
  hrun.invariant Sound (fun hh hstep => hh.step hstep) .empty

/-- Every client that came has an account, whatever the others did meanwhile. -/
theorem account {es : List (Event κ α)} (hrun : Run (Step capacity) .empty es h)
    (hclient : client < h.clients) :
    ∃ topic before after, es = before ++ .subscribed topic client :: after ∧
      Account capacity topic client h after := by
  induction hrun with
  | refl => exact absurd hclient (Nat.not_lt_zero _)
  | @tail h h' es fs run last ih =>
    by_cases hcame : client < h.clients
    · obtain ⟨topic, before, after, hes, ha⟩ := ih hcame
      refine ⟨topic, before, after ++ fs, ?_, ha.step (.of_run run) hcame last⟩
      rw [hes, List.append_assoc]
      rfl
    · -- the client came in this step
      cases last with
      | subscribed topic =>
        obtain rfl : client = h.clients :=
          Nat.le_antisymm (Nat.le_of_lt_succ hclient) (Nat.le_of_not_lt hcame)
        exact ⟨topic, es, [], rfl, .subscribe h topic⟩
      | @notified t message =>
        have hsame : (h.notify capacity t message).clients = h.clients := notify_clients
        exact absurd (hsame ▸ hclient) hcame
      | _ => exact absurd hclient hcame

end Hub
end Lib
