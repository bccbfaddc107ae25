import RexOs.Desktop.Entity
import RexOs.Desktop.Windows
import RexOs.Library.History

/-! The history of the browser (`br_fetch_ex` and `br_event` of `user/desktop/app_browser.c`).

A C string is the list of its characters in front of the NUL. What is only shown (the status
message, the title and the blocks of a page) is left out. Each click and each key comes with the
reply to the request that it may lead to.
-/

set_option autoImplicit false

namespace RexOs.Desktop.BrowserHistory

open RexOs.Library
open RexOs.Desktop.Browser (Fault)
open RexOs.User.Iconv (ascii)

abbrev Url := List UInt8

def brUrlMax : Nat := 256

abbrev brHistoryMax : Nat := 16

def httpErrNoMemory : Int := -6

structure BrState where
  url : Url
  urlInput : Url
  urlLen : Int
  urlFocused : Bool
  history : List Url
  histCount : Int
  histPos : Int
  body : Bool
  isHttps : Bool
  loading : Bool
  err : Int
  scroll : Int
  deriving DecidableEq, Repr

/-- Whether there is memory for the page, and what `http_get` returns. -/
structure Reply where
  memory : Bool
  rc : Int
  finalUrl : Url
  deriving DecidableEq, Repr

def dStrcpy (src : List UInt8) (max : Nat) : List UInt8 := src.take (max - 1)

def dStrcat (dst src : List UInt8) (max : Nat) : List UInt8 := dst ++ src.take (max - 1 - dst.length)

def dStrncmp : List UInt8 → List UInt8 → Nat → Int
  | _, _, 0 => 0
  | a, b, n + 1 =>
      let x := a.headD 0
      let y := b.headD 0
      if x ≠ y then x.toNat - y.toNat else if x = 0 then 0 else dStrncmp a.tail b.tail n

def brUrlApply (st : BrState) : BrState := { st with url := st.urlInput.take (min st.urlLen (brUrlMax - 1)).toNat }

def brUrlSet (st : BrState) (u : Url) : BrState :=
  let s := u.take (brUrlMax - 1)
  { st with url := s, urlInput := s, urlLen := s.length }

def https : Url := ascii "https://"

def http : Url := ascii "http://"

def brHome : Url := ascii "https://example.com/"

/-- Without a scheme, `https://` is put in front. -/
def detectHttps (st : BrState) : BrState :=
  if dStrncmp st.url https 8 = 0 then { st with isHttps := true }
  else if dStrncmp st.url http 7 ≠ 0 then
    { brUrlSet st (dStrcat (dStrcpy https brUrlMax) st.url brUrlMax) with isHttps := true }
  else { st with isHttps := false }

/-- `history[i]` -/
def readSlot (history : List Url) (i : Int) : Except Fault Url := if 0 ≤ i then (history[i.toNat]?).elim (.error .read) .ok else .error .read

def writeSlot (history : List Url) (i : Int) (u : Url) : Except Fault (List Url) :=
  if 0 ≤ i ∧ i < history.length then .ok (history.set i.toNat (dStrcpy u brUrlMax)) else .error .write

/-- `for (int i = 0; i < BR_HISTORY_MAX - 1; i++)` -/
def shiftLoop : Nat → List Url → Int → Except Fault (List Url)
  | 0, _, _ => .error .hang
  | fuel + 1, history, i =>
      if i < brHistoryMax - 1 then do
        let u ← readSlot history (i + 1)
        let history ← writeSlot history i u
        shiftLoop fuel history (i + 1)
      else .ok history

/-- `if (st->hist_count >= BR_HISTORY_MAX)` -/
def makeRoom (st : BrState) : Except Fault BrState :=
  if st.histCount ≥ brHistoryMax then do
    let history ← shiftLoop brHistoryMax st.history 0
    .ok { st with history := history, histCount := brHistoryMax - 1 }
  else .ok st

/-- `if (push_history)` -/
def pushHistory (st : BrState) : Except Fault BrState := do
  let st := if st.histPos < st.histCount - 1 then { st with histCount := st.histPos + 1 } else st
  let st ← makeRoom st
  let history ← writeSlot st.history st.histCount st.url
  .ok { st with history := history, histPos := st.histCount, histCount := st.histCount + 1 }

/-- With the URLs that `http_get` is called with. -/
def finishFetch (st : BrState) (reply : Reply) : BrState × List Url :=
  if reply.memory = false then ({ st with err := httpErrNoMemory, loading := false }, [])
  else if reply.rc < 0 then ({ st with err := reply.rc, loading := false }, [st.url])
  else ({ (if reply.finalUrl ≠ [] then brUrlSet st reply.finalUrl else st) with body := true, loading := false }, [st.url])

def brFetchEx (st : BrState) (push : Bool) (reply : Reply) : Except Fault (BrState × List Url) :=
  let st := detectHttps { st with body := false, loading := true, err := 0, scroll := 0 }
  if push then do
    let st ← pushHistory st
    .ok (finishFetch st reply)
  else .ok (finishFetch st reply)

def brFetch (st : BrState) (reply : Reply) : Except Fault (BrState × List Url) := brFetchEx st true reply

inductive Button where
  | back
  | forward
  | reload
  | home
  | urlBar
  | content
  deriving DecidableEq, Repr

/-- `if (st->hist_pos > 0)` -/
def goBack (st : BrState) (reply : Reply) : Except Fault (BrState × List Url) :=
  if st.histPos > 0 then do
    let st := { st with histPos := st.histPos - 1 }
    let u ← readSlot st.history st.histPos
    brFetchEx (brUrlSet st u) false reply
  else .ok (st, [])

/-- `if (st->hist_pos < st->hist_count - 1)` -/
def goForward (st : BrState) (reply : Reply) : Except Fault (BrState × List Url) :=
  if st.histPos < st.histCount - 1 then do
    let st := { st with histPos := st.histPos + 1 }
    let u ← readSlot st.history st.histPos
    brFetchEx (brUrlSet st u) false reply
  else .ok (st, [])

def startEdit (st : BrState) (focused : Bool) : BrState :=
  { st with urlFocused := focused, urlInput := dStrcpy st.url brUrlMax, urlLen := (dStrcpy st.url brUrlMax).length }

def click (st : BrState) (button : Button) (reply : Reply) : Except Fault (BrState × List Url) :=
  match button with
  | .back => goBack st reply
  | .forward => goForward st reply
  | .reload => brFetch st reply
  | .home => brFetch (brUrlSet st brHome) reply
  | .urlBar => .ok (startEdit st true, [])
  | .content => .ok ({ st with urlFocused := false }, [])

def typeKey (st : BrState) (c : UInt8) (reply : Reply) : Except Fault (BrState × List Url) :=
  if c = 10 ∨ c = 13 then brFetch { brUrlApply st with urlFocused := false } reply
  else if c = 8 ∨ c = 127 then
    .ok (if st.urlLen > 0 then { st with urlLen := st.urlLen - 1, urlInput := st.urlInput.take (st.urlLen - 1).toNat } else st, [])
  else if c = 27 then .ok (startEdit st false, [])
  else if 32 ≤ c ∧ c < 127 ∧ st.urlLen < brUrlMax - 1 then
    .ok ({ st with urlInput := st.urlInput.take st.urlLen.toNat ++ [c], urlLen := st.urlLen + 1 }, [])
  else .ok (st, [])

def pageKey (st : BrState) (c : UInt8) (reply : Reply) : Except Fault (BrState × List Url) :=
  if c = 114 ∨ c = 82 then brFetch st reply
  else if c = 32 ∧ st.body then .ok ({ st with scroll := st.scroll + 200 }, [])
  else if c = 106 ∧ st.body then .ok ({ st with scroll := st.scroll + 40 }, [])
  else if c = 107 ∧ st.body then .ok ({ st with scroll := st.scroll - 40 }, [])
  else if c = 103 ∧ st.body then .ok ({ st with scroll := 0 }, [])
  else .ok (st, [])

def key (st : BrState) (c : UInt8) (reply : Reply) : Except Fault (BrState × List Url) :=
  if st.urlFocused then typeKey st c reply else pageKey st c reply

def brToolbarH : Int := 44

def brUrlbarH : Int := 28

def brStatusH : Int := 22

/-- What `wm_content_rect` returns. -/
structure Content where
  cx : Int
  cy : Int
  cw : Int
  ch : Int
  deriving DecidableEq, Repr

def btnSize : Int := 28

def btnGap : Int := 4

def buttonX (r : Content) (n : Int) : Int := r.cx + 8 + n * (btnSize + btnGap)

def hit (r : Content) (x y : Int) : Option Button :=
  let by_ := r.cy + (brToolbarH - btnSize) / 2
  let urlbarX := buttonX r 4 + 4
  if ptInRect x y (buttonX r 0) by_ btnSize btnSize then some .back
  else if ptInRect x y (buttonX r 1) by_ btnSize btnSize then some .forward
  else if ptInRect x y (buttonX r 2) by_ btnSize btnSize then some .reload
  else if ptInRect x y (buttonX r 3) by_ btnSize btnSize then some .home
  else if ptInRect x y urlbarX (r.cy + (brToolbarH - brUrlbarH) / 2) (r.cx + r.cw - urlbarX - 8) brUrlbarH then some .urlBar
  else if ptInRect x y r.cx (r.cy + brToolbarH) r.cw (r.ch - brToolbarH - brStatusH) then some .content
  else none

/-- The pointer if it was clicked, the keys that `kbd_pop` returns, and the height of the page. -/
structure Input where
  content : Content
  clicked : Option (Int × Int)
  clickReply : Reply
  keys : List (UInt8 × Reply)
  contentH : Int
  deriving DecidableEq, Repr

inductive Event where
  | click (button : Button) (reply : Reply)
  | key (c : UInt8) (reply : Reply)
  | clamp (maxScroll : Int)
  deriving DecidableEq, Repr

def clampScroll (st : BrState) (maxScroll : Int) : BrState :=
  let maxScroll := if maxScroll < 0 then 0 else maxScroll
  let scroll := if st.scroll < 0 then 0 else st.scroll
  { st with scroll := if scroll > maxScroll then maxScroll else scroll }

def Input.events (input : Input) : List Event :=
  let rest := input.keys.map (fun k => Event.key k.1 k.2) ++ [.clamp (input.contentH - (input.content.ch - brToolbarH - brStatusH))]
  match input.clicked.bind fun p => hit input.content p.1 p.2 with
  | none => rest
  | some .content => .click .content input.clickReply :: rest
  | some button => [.click button input.clickReply]

def react (st : BrState) : Event → Except Fault (BrState × List Url)
  | .click button reply => click st button reply
  | .key c reply => key st c reply
  | .clamp maxScroll => .ok (clampScroll st maxScroll, [])

structure Browsing where
  st : BrState
  loaded : List Url
  deriving DecidableEq, Repr

def handle (b : Browsing) (e : Event) : Except Fault Browsing := do
  let (st, urls) ← react b.st e
  .ok ⟨st, b.loaded ++ urls⟩

def handleAll (b : Browsing) : List Event → Except Fault Browsing
  | [] => .ok b
  | e :: events => do
      let b ← handle b e
      handleAll b events

def brEvent (b : Browsing) (input : Input) : Except Fault Browsing := handleAll b input.events

def browse (b : Browsing) : List Input → Except Fault Browsing
  | [] => .ok b
  | input :: inputs => do
      let b ← brEvent b input
      browse b inputs

def brOpen : Browsing :=
  ⟨brUrlSet ⟨[], [], 0, false, List.replicate brHistoryMax [], 0, 0, false, false, false, 0, 0⟩ (ascii "http://info.cern.ch/"), []⟩

end RexOs.Desktop.BrowserHistory
