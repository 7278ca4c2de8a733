import LocateMe.Lib.Machine
import LocateMe.Lib.Documents
import LocateMe.Lib.DispatchGroup
import LocateMe.Lib.Ladder
import LocateMe.Lib.Replacement
import LocateMe.Lib.Decimal
import LocateMe.Lib.StableSort
import LocateMe.Lib.Shelves
import LocateMe.Lib.Interleaving
import LocateMe.Lib.InFlight
import LocateMe.Lib.RowCounts
import LocateMe.Model
import LocateMe.MapItems
import LocateMe.Trace
import LocateMe.TracedSearch
import LocateMe.LocalSearch
import LocateMe.Store
import LocateMe.DbControllers
import LocateMe.Integrity
import LocateMe.SavePlaceView
import LocateMe.ListScreens
import LocateMe.Consistency
import LocateMe.SaveDone
import LocateMe.Session
import LocateMe.HeldPlaces
import LocateMe.Freshness
import LocateMe.SessionIntegrity
import LocateMe.Orphans
import LocateMe.FailedWrites
import LocateMe.PlaceDetail
import LocateMe.SaveVisit
import LocateMe.OtherPlaces
import LocateMe.ListTitles
import LocateMe.TraceRecord
import LocateMe.FailedSearches
import LocateMe.Authentication
import LocateMe.MapRows
import LocateMe.Logout
import LocateMe.DefaultLists
import LocateMe.Devices
import LocateMe.Membership
import LocateMe.TidyStore
import LocateMe.ChosenLists
import LocateMe.EditedList
import LocateMe.EmptiedList
import LocateMe.RecentlySaved
import LocateMe.Centres
import LocateMe.DrawnPath
import LocateMe.RecentSearches
import LocateMe.Pins
import LocateMe.DetailFlow
import LocateMe.PhoneNumbers
import LocateMe.DistanceLabels
import LocateMe.RefreshedHistory
import LocateMe.DirectionReplies
import LocateMe.Panels
import LocateMe.EditSheet
import LocateMe.SavedPlaces
import LocateMe.ShelvedStore
import LocateMe.ShelvedActions
import LocateMe.ShelvedOrders
import LocateMe.ShelvedRuns
import LocateMe.ShelvedSessions
import LocateMe.Profile
import LocateMe.SignUpScreens
import LocateMe.ListMap
import LocateMe.SearchPanelRows
import LocateMe.SavedItems
import LocateMe.PanelSwipes
import LocateMe.DistancePicker
