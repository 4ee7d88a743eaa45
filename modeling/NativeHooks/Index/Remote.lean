/-
# Remote headers

Remote headers are a fixed list of URLs under one label.  A header is listed by
the last segment of its URL.
-/

import NativeHooks.Index.Build
import NativeHooks.Text.Blank
import NativeHooks.Text.Find

namespace NativeHooks

open Text

/-- The last segment of the path of a URL; query and fragment do not count, nor
do slashes at the end of the path. -/
def urlFileName (url : String) : String :=
  let path := url.toList.takeWhile fun c => c != '?' && c != '#'
  String.ofList (afterLast '/' (dropEndWhile (· == '/') path))

/-- The header at a URL. -/
def Source.remote (label url : String) : Source :=
  let name := urlFileName url
  { location := url, fileName := name, relativeLocation := name, directory := label }

/-- The index of remote headers; none if there is no URL. -/
def Outcome.ofRemote (label : String) (urls : List String) (fetch : String → Except ε String) :
    Option Outcome :=
  if urls.isEmpty then none
  else some (Outcome.ofSources label (urls.map (Source.remote label)) fetch)

end NativeHooks
