import PhraseGraph.Analyzer
import PhraseGraph.Intent

/-!
# Defaults of the configuration

The languages of the archive, and the filters of the intents that its grammars may name. An intent
without filters is found only by queries without filters.
-/

namespace PhraseGraph.Config

/-- The first year that is listed. -/
def defaultStartYear : Int := 1996

/-- How many graphs are kept. -/
def defaultCacheSize : Nat := 1000

/-- The languages in which the archive is published. -/
def knownLanguages : List String :=
  ["en", "he", "ru", "es", "it", "de", "nl", "fr", "pt", "tr", "pl", "ar", "hu", "fi", "lt", "ja",
    "bg", "ka", "no", "sv", "hr", "zh", "fa", "ro", "hi", "mk", "sl", "lv", "sk", "cs", "ua", "am",
    "id", "hy"]

/-- The stop words of each language. -/
def defaultStopWords : Dict String (List String) := Dict.ofList [("en", englishStopWords)]

/-- The filter for kinds of content. -/
def contentTypes (types : List String) : Filters := Dict.ofList [("content_type", types)]

/-- The kinds of content of programs. -/
def programTypes : Filters := contentTypes ["VIDEO_PROGRAM_CHAPTER", "VIDEO_PROGRAM"]

/-- The kinds of content that a source may be the matter of. -/
def sourceMatterTypes : Filters :=
  contentTypes ["CONGRESS", "DAILY_LESSON", "EVENT_PART", "FRIENDS_GATHERING",
    "FRIENDS_GATHERINGS", "FULL_LESSON", "HOLIDAY", "LECTURE", "LECTURE_SERIES", "LESSON_PART",
    "MEAL", "MEALS", "SOURCE", "UNITY_DAY", "VIDEO_PROGRAM", "VIDEO_PROGRAM_CHAPTER",
    "VIRTUAL_LESSON", "VIRTUAL_LESSONS", "WOMEN_LESSON"]

/-- The filters of the intents that lead to a page of the archive. -/
def pageFilters : List (String × Filters) :=
  [("lessons", contentTypes ["LESSON_PART", "FULL_LESSON", "DAILY_LESSON"]),
    ("virtual_lessons", contentTypes ["VIRTUAL_LESSON", "VIRTUAL_LESSONS"]),
    ("lectures", contentTypes ["LECTURE", "LECTURE_SERIES"]),
    ("women_lessons", contentTypes ["WOMEN_LESSON", "WOMEN_LESSONS"]),
    ("rabash_lessons", contentTypes ["LESSON_PART", "DAILY_LESSON"]),
    ("lesson_series", contentTypes ["LESSONS_SERIES"]),
    ("programs", programTypes),
    ("clips", contentTypes ["CLIP"]),
    ("library", contentTypes ["SOURCE"]),
    ("group_articles", contentTypes ["SOURCE"]),
    ("conventions", contentTypes ["EVENT_PART", "CONGRESS"]),
    ("holidays", contentTypes ["EVENT_PART", "HOLIDAY"]),
    ("unity_days", contentTypes ["EVENT_PART", "UNITY_DAY"]),
    ("friends_gatherings", contentTypes ["FRIENDS_GATHERING", "FRIENDS_GATHERINGS"]),
    ("meals", contentTypes ["MEAL", "MEALS"]),
    ("topics", ∅),
    ("blog", contentTypes ["BLOG_POST", "ARTICLES"]),
    ("twitter", contentTypes ["TWEET", "ARTICLES"]),
    ("articles", contentTypes ["ARTICLE", "PUBLICATION", "ARTICLES"]),
    ("downloads", ∅),
    ("help", ∅)]

/-- The filters of the intents that restrict a search. -/
def restrictionFilters : List (String × Filters) :=
  [("source_position_without_term", contentTypes ["LESSON_PART", "FULL_LESSON",
      "VIDEO_PROGRAM_CHAPTER", "SOURCE", "DAILY_LESSON", "VIDEO_PROGRAM"]),
    ("program_position_without_term", programTypes),
    ("by_content_type", ∅),
    ("by_source", sourceMatterTypes),
    ("by_program", programTypes),
    ("by_program_without_term", programTypes),
    ("source_path", ∅)]

/-- The registered intents. -/
def defaultIntentFilters : IntentRegistry := Dict.ofList (pageFilters ++ restrictionFilters)

end PhraseGraph.Config
