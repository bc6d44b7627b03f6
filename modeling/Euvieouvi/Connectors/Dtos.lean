import Euvieouvi.Database

/-!
# Data transfer objects of the connectors

The records of `connectors/dtos.py` that synchronization stores. A kind that needs more than its
title says so in `valid`, the checks of `__post_init__`, so a connector cannot hand over an episode
without its coordinates or a track without its album.
-/

namespace Euvieouvi

structure ExternalIdentifier where
  provider : String
  externalId : String
deriving DecidableEq, Repr

/-- The fields of `show_metadata` that are stored. -/
structure ShowMetadata where
  externalId : String
  kind : MediaKind := .show
  title : String
  originalTitle : Option String := none
  year : Option Nat := none
  summary : Option String := none
  tagline : Option String := none
  studio : Option String := none
  contentRating : Option String := none
  audienceRating : Option Rat := none
  originallyAvailableOn : Option Int := none
  addedAt : Option Time := none
  genres : List String := []
  thumbPath : Option String := none
  artPath : Option String := none
deriving DecidableEq, Repr

structure MediaFields where
  externalId : String
  libraryExternalId : String
  kind : MediaKind
  title : String
  externalKey : Option String := none
  filePaths : List String := []
  originalTitle : Option String := none
  year : Option Nat := none
  showExternalId : Option String := none
  showTitle : Option String := none
  showIdentifiers : List ExternalIdentifier := []
  showMetadata : Option ShowMetadata := none
  seasonExternalId : Option String := none
  seasonNumber : Option Nat := none
  episodeNumber : Option Nat := none
  artistExternalId : Option String := none
  artistTitle : Option String := none
  albumExternalId : Option String := none
  albumTitle : Option String := none
  discNumber : Option Nat := none
  trackNumber : Option Nat := none
  durationMs : Option Nat := none
  originallyAvailableOn : Option Int := none
  summary : Option String := none
  tagline : Option String := none
  studio : Option String := none
  contentRating : Option String := none
  audienceRating : Option Rat := none
  genres : List String := []
  addedAt : Option Time := none
  thumbPath : Option String := none
  artPath : Option String := none
  artistThumbPath : Option String := none
  albumThumbPath : Option String := none
  identifiers : List ExternalIdentifier := []
  updatedAt : Option Time := none
  lastViewedAt : Option Time := none
  viewCount : Option Nat := none
  viewOffsetMs : Option Nat := none
  completed : Option Bool := none
deriving DecidableEq, Repr

/-- The fields a kind cannot do without. -/
def MediaFields.Complete (item : MediaFields) : Prop :=
  (item.kind = .episode → item.showExternalId.isSome ∧ item.showTitle.isSome ∧
    item.seasonNumber.isSome ∧
    item.episodeNumber.isSome) ∧
  (item.kind = .track → item.artistExternalId.isSome ∧ item.artistTitle.isSome ∧
    item.albumExternalId.isSome ∧
    item.albumTitle.isSome)

instance (item : MediaFields) : Decidable item.Complete := inferInstanceAs (Decidable (_ ∧ _))

structure ExternalMediaItem extends MediaFields where
  complete : toMediaFields.Complete

structure ExternalWatchEvent where
  mediaExternalId : String
  libraryExternalId : String
  watchedAt : Time
  completed : Bool
  sourceEventId : Option String := none
  progressMs : Option Nat := none
  durationMs : Option Nat := none
  viewNumber : Option Nat := none
  playbackUser : Option String := none
deriving DecidableEq, Repr

end Euvieouvi
