/-
  File:      Ruwa/Session/Listing.lean
  Subject:   LISTING THE STORED MESSAGES PAGE BY PAGE (`store.rs`, `messages_list`), newest first,
             without a search.

  A caller passes the oldest timestamp of a page as the next `before`. Timestamps are whole
  seconds, and `before` is strict.

  * `messagesList_page` -- a listing is a page of the messages in scope;
  * **`paging_complete_iff`** -- the pages hold every message exactly when no page ends between two
    messages of one second.
-/
import Ruwa.Library.Paging
import Ruwa.Session.Messages

namespace Ruwa.Session

open Ruwa.Library

/-! ## 1. The listing -/

/-- A row of the table, which holds the messages of all sessions. -/
structure StoredMessage where
  sessionId : String
  row : MessageRow
  deriving DecidableEq

def StoredMessage.timestamp (m : StoredMessage) : Int := m.row.timestamp

/-- `ORDER BY timestamp DESC`, equal timestamps in any order. -/
abbrev NewestFirst := HighestFirst StoredMessage.timestamp

def messagesList (order : NewestFirst) (table : List StoredMessage) (sessionId : String)
    (chat : Option String) (before : Int) (limit : Nat) : List StoredMessage :=
  (order.sort (table.filter fun m =>
    m.sessionId = sessionId ∧ m.timestamp < before ∧ ∀ c ∈ chat, m.row.chatJid = c)).take limit

/-- The messages that a caller is after. -/
def scope (table : List StoredMessage) (sessionId : String) (chat : Option String) :
    List StoredMessage :=
  table.filter fun m => m.sessionId = sessionId ∧ ∀ c ∈ chat, m.row.chatJid = c

/-! ## 2. Its pages -/

theorem messagesList_page (order : NewestFirst) (table : List StoredMessage) (sessionId : String)
    (chat : Option String) (before : Int) (limit : Nat) :
    messagesList order table sessionId chat before limit =
      order.page limit (scope table sessionId chat) before := by
  unfold messagesList HighestFirst.page below scope
  rw [List.filter_filter]
  congr 2
  refine List.filter_congr fun m _ => ?_
  rw [← Bool.decide_and, decide_eq_decide]
  exact and_left_comm

/-- **The pages hold every message of the scope, each once, and then comes an empty one**, exactly
    when the messages of each second fit on one page. -/
theorem paging_complete_iff (order : NewestFirst) (table : List StoredMessage) (sessionId : String)
    (chat : Option String) {limit : Nat} (hlimit : 1 ≤ limit) {before : Int}
    (hbefore : ∀ m ∈ scope table sessionId chat, m.timestamp < before) :
    ∃ ps, pages StoredMessage.timestamp (messagesList order table sessionId chat · limit)
        ((scope table sessionId chat).length + 1) before = some ps ∧
      (ps.flatten.Perm (scope table sessionId chat) ↔
        Together StoredMessage.timestamp limit (scope table sessionId chat)) := by
  have hall : below StoredMessage.timestamp (scope table sessionId chat) before =
      scope table sessionId chat :=
    List.filter_eq_self.mpr fun m hm => decide_eq_true (hbefore m hm)
  have hlist : (messagesList order table sessionId chat · limit) =
      order.page limit (scope table sessionId chat) :=
    funext fun before => messagesList_page order table sessionId chat before limit
  have hfuel : (below StoredMessage.timestamp (scope table sessionId chat) before).length <
      (scope table sessionId chat).length + 1 := by
    rw [hall]
    exact Nat.lt_succ_self _
  have hpages := pages_complete_iff order hlimit (scope table sessionId chat) hfuel
  rw [hall] at hpages
  rw [hlist]
  exact hpages

/-! ## 3. A page that ends within a second -/

namespace Sample

def stored (messageId : String) (timestamp : Int) : StoredMessage :=
  ⟨"s", "c@s.whatsapp.net", messageId, "c@s.whatsapp.net", false, timestamp, "text", none, "\x7b\x7d",
    .received⟩

def burst : List StoredMessage := [stored "A" 7, stored "B" 7]

def apart : List StoredMessage := [stored "A" 7, stored "B" 8, stored "C" 8]

end Sample

/-- Two messages of one second with one to a page: the second is on none. -/
theorem paging_incomplete :
    pages StoredMessage.timestamp (messagesList (.byInsertion _) Sample.burst "s" none · 1) 3 8 =
        some [[Sample.stored "A" 7]] ∧
      ¬[[Sample.stored "A" 7]].flatten.Perm (scope Sample.burst "s" none) := by
  decide +kernel

/-- Two messages of one second that fit on one page. -/
theorem paging_complete_apart :
    ∃ ps, pages StoredMessage.timestamp
        (messagesList (.byInsertion _) Sample.apart "s" (some "c@s.whatsapp.net") · 2) 4 9 = some ps ∧
      ps.flatten.Perm (scope Sample.apart "s" (some "c@s.whatsapp.net")) := by
  have hlimit : 1 ≤ 2 := by decide
  have hbefore : ∀ m ∈ scope Sample.apart "s" (some "c@s.whatsapp.net"), m.timestamp < 9 := by
    decide +kernel
  obtain ⟨ps, hps, hiff⟩ := paging_complete_iff (.byInsertion _) Sample.apart "s"
    (some "c@s.whatsapp.net") hlimit hbefore
  exact ⟨ps, hps, hiff.mpr (by decide +kernel)⟩

end Ruwa.Session
