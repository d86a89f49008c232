import LedgerIndex.Sync.Config
import Mathlib.Data.List.Infix

/-!
# What a builder makes of its settings

Settings can be given in any order and as often as one likes.  Of each kind the last one counts, and
what was never set is as usual.  Two settings write the pause between pages: the pause itself, and
the URL of the node as long as no pause was set.  So a pause that was ever set counts whatever URLs
come before or after it, and otherwise the last URL decides (`Builder.config_ofSettings`).
-/

namespace LedgerIndex.Sync

/-! ## The URL of a node -/

theorem occursIn_iff {part text : List Char} : occursIn part text ↔ part <:+: text := by
  induction text with
  | nil => simp [occursIn]
  | cons c rest ih => simp [occursIn, List.infix_cons_iff, ih]

/-- A node is on this machine if its URL says so anywhere. -/
theorem pollIntervalOf_eq (url : String) : pollIntervalOf url =
    if "localhost".toList <:+: url.toList ∨ "127.0.0.1".toList <:+: url.toList then
      localPollInterval
    else remotePollInterval := by
  rw [pollIntervalOf]
  simp only [Bool.or_eq_true, occursIn_iff]

/-! ## Settings by kind -/

namespace Setting

def id? : Setting → Option String
  | id s => some s
  | _ => none

def tracked? : Setting → Option String
  | tracked object => some object
  | _ => none

def pageSize? : Setting → Option Nat
  | pageSize n => some n
  | _ => none

def pollInterval? : Setting → Option Nat
  | pollInterval milliseconds => some milliseconds
  | _ => none

def progressInterval? : Setting → Option Nat
  | progressInterval seconds => some seconds
  | _ => none

def events? : Setting → Option TypeFilter
  | events filter => some filter
  | _ => none

def start? : Setting → Option UInt64
  | start checkpoint => some checkpoint
  | _ => none

def url? : Setting → Option String
  | url s => some s
  | _ => none

end Setting

/-- What the last setting of a kind says, if there is one. -/
def lastSet {α : Type} (take : Setting → Option α) (settings : List Setting) : Option α :=
  (settings.filterMap take).getLast?

theorem lastSet_cons {α : Type} (take : Setting → Option α) (s : Setting)
    (settings : List Setting) :
    lastSet take (s :: settings) = (lastSet take settings).or (take s) := by
  rw [lastSet, lastSet, List.filterMap_cons]
  cases take s with
  | none => rw [Option.or_none]
  | some a =>
    rw [List.getLast?_cons]
    cases (settings.filterMap take).getLast? <;> rfl

namespace Builder

/-- What is written by the settings of one kind only, and always, is what the last of them says. -/
theorem read_foldl_set {α β : Type} (read : Builder → β) (take : Setting → Option α) (put : α → β)
    (hset : ∀ b s, read (b.set s) = ((take s).map put).getD (read b)) (settings : List Setting)
    (b : Builder) :
    read (settings.foldl set b) = ((lastSet take settings).map put).getD (read b) := by
  induction settings generalizing b with
  | nil => rfl
  | cons s settings ih =>
    rw [List.foldl_cons, ih, hset, lastSet_cons]
    cases lastSet take settings <;> rfl

/-- What starts out as it usually is. -/
theorem read_ofSettings {α : Type} (read : Config → α) (take : Setting → Option α)
    (hset : ∀ b s, read (set b s).config = (take s).getD (read b.config))
    (settings : List Setting) :
    read (ofSettings settings).config = (lastSet take settings).getD (read .usual) := by
  have h := read_foldl_set (fun b => read b.config) take id
    (fun b s => by rw [hset, Option.map_id, id]) settings new
  rwa [Option.map_id, id] at h

/-- What starts out as nothing. -/
theorem read?_ofSettings {α : Type} (read : Builder → Option α) (take : Setting → Option α)
    (hnew : read new = none) (hset : ∀ b s, read (b.set s) = (take s).or (read b))
    (settings : List Setting) : read (ofSettings settings) = lastSet take settings := by
  have h := read_foldl_set read take some
    (fun b s => by rw [hset]; cases take s <;> rfl) settings new
  rw [ofSettings, h, hnew]
  cases lastSet take settings <;> rfl

/-! ## The pause between pages -/

/-- Unless a pause was set, it is that of the node, if there is a URL. -/
def FollowsUrl (b : Builder) : Prop :=
  b.isPaced = false → b.config.pollInterval = (b.url.map pollIntervalOf).getD remotePollInterval

theorem FollowsUrl.set {b : Builder} (h : b.FollowsUrl) (s : Setting) : (b.set s).FollowsUrl := by
  intro hpaced
  cases s with
  | pollInterval => cases hpaced
  | url s =>
    have hunpaced : b.isPaced = false := hpaced
    rw [Builder.set, hunpaced]
    rfl
  | _ => exact h hpaced

theorem FollowsUrl.foldl_set {b : Builder} (h : b.FollowsUrl) (settings : List Setting) :
    (settings.foldl Builder.set b).FollowsUrl := by
  induction settings generalizing b with
  | nil => exact h
  | cons s settings ih => exact ih (h.set s)

/-- The pause that was set, if one was. -/
def pause? (b : Builder) : Option Nat := if b.isPaced then some b.config.pollInterval else none

/-- A URL never changes a pause that was set. -/
theorem pause?_set (b : Builder) (s : Setting) :
    (b.set s).pause? = s.pollInterval?.or b.pause? := by
  cases s with
  | url s => cases h : b.isPaced <;> simp [pause?, set, h, Setting.pollInterval?]
  | _ => rfl

/-- The pause is the one that was set last, and without one that of the last URL. -/
theorem pollInterval_ofSettings (settings : List Setting) :
    (ofSettings settings).config.pollInterval =
      (lastSet (·.pollInterval?) settings).getD
        (((lastSet (·.url?) settings).map pollIntervalOf).getD remotePollInterval) := by
  have hpause : (ofSettings settings).pause? = lastSet (·.pollInterval?) settings :=
    read?_ofSettings pause? _ rfl pause?_set settings
  have hurl : (ofSettings settings).url = lastSet (·.url?) settings :=
    read?_ofSettings url _ rfl (fun b s => by cases s <;> rfl) settings
  have hfollows : FollowsUrl (ofSettings settings) := FollowsUrl.foldl_set (fun _ => rfl) settings
  rw [← hpause, ← hurl, pause?]
  cases h : (ofSettings settings).isPaced with
  | true => rfl
  | false => exact hfollows h

/-! ## The whole configuration -/

/-- Settings of different kinds can be exchanged. -/
theorem set_comm (b : Builder) {s t : Setting} (h : s.ctorIdx ≠ t.ctorIdx) :
    (b.set s).set t = (b.set t).set s := by
  cases s <;> cases t <;> first | rfl | exact absurd rfl h

/-- Of each kind the last setting counts, except that a URL only matters where no pause was set; so
settings of different kinds can stand in any order. -/
theorem config_ofSettings :
    (∀ settings : List Setting, (ofSettings settings).config =
      { id := (lastSet (·.id?) settings).getD Config.usual.id
        tracked := (lastSet (·.tracked?) settings).getD Config.usual.tracked
        pageSize := (lastSet (·.pageSize?) settings).getD Config.usual.pageSize
        pollInterval := (lastSet (·.pollInterval?) settings).getD
          (((lastSet (·.url?) settings).map pollIntervalOf).getD Config.usual.pollInterval)
        progressInterval :=
          (lastSet (·.progressInterval?) settings).getD Config.usual.progressInterval
        events := (lastSet (·.events?) settings).getD Config.usual.events
        start := lastSet (·.start?) settings }) ∧
    (∀ url : String, pollIntervalOf url =
      if "localhost".toList <:+: url.toList ∨ "127.0.0.1".toList <:+: url.toList then
        localPollInterval
      else remotePollInterval) ∧
    ∀ (settings later : List Setting) (s t : Setting), s.ctorIdx ≠ t.ctorIdx →
      ofSettings (settings ++ s :: t :: later) = ofSettings (settings ++ t :: s :: later) := by
  refine ⟨fun settings => ?_, pollIntervalOf_eq, fun settings later s t hkinds => ?_⟩
  · have hid := read_ofSettings (·.id) (·.id?) (fun b s => by cases s <;> rfl) settings
    have htracked :=
      read_ofSettings (·.tracked) (·.tracked?) (fun b s => by cases s <;> rfl) settings
    have hpageSize :=
      read_ofSettings (·.pageSize) (·.pageSize?) (fun b s => by cases s <;> rfl) settings
    have hprogress := read_ofSettings (·.progressInterval) (·.progressInterval?)
      (fun b s => by cases s <;> rfl) settings
    have hevents := read_ofSettings (·.events) (·.events?) (fun b s => by cases s <;> rfl) settings
    have hstart := read?_ofSettings (·.config.start) (·.start?) rfl
      (fun b s => by cases s <;> rfl) settings
    have hpoll := pollInterval_ofSettings settings
    rw [← hid, ← htracked, ← hpageSize, ← hprogress, ← hevents, ← hstart]
    exact congrArg (fun n => { (ofSettings settings).config with pollInterval := n }) hpoll
  · rw [ofSettings, ofSettings, List.foldl_append, List.foldl_append]
    simp only [List.foldl_cons]
    rw [set_comm _ hkinds]

/-- A pause stays whether it is set before or after the URL of a node on this machine. -/
theorem config_ofSettings_paced :
    (Setting.url "http://localhost:9000").ctorIdx ≠ (Setting.pollInterval 250).ctorIdx ∧
    ofSettings ([.id "shop"] ++ .url "http://localhost:9000" :: .pollInterval 250 :: []) =
      ofSettings ([.id "shop"] ++ .pollInterval 250 :: .url "http://localhost:9000" :: []) ∧
    (ofSettings [.pollInterval 250, .url "http://localhost:9000"]).config.pollInterval = 250 ∧
    (ofSettings [.url "http://localhost:9000"]).config.pollInterval = 100 := by
  refine ⟨by decide, config_ofSettings.2.2 _ _ _ _ (by decide), ?_, ?_⟩
  · rw [config_ofSettings.1]
    rfl
  · rw [config_ofSettings.1]
    decide +kernel

end Builder

end LedgerIndex.Sync
